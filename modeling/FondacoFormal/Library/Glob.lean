import Mathlib.Data.List.Basic

/-!
# Shell patterns over slash-separated names

`path.Match` as its documentation gives it: a pattern is a sequence of terms, a star stands for
any characters but slashes, a question mark for one of them, a class for one character of its
ranges.
-/

namespace FondacoFormal.Library.Glob

inductive Term where
  | star
  | any
  | oneOf (negated : Bool) (ranges : List (Char × Char))
  | char (c : Char)
  deriving DecidableEq, Repr

/-! ## Parsing -/

/-- `getEsc`: one end of a range; a class is closed after it. -/
def getEsc : List Char → Option (Char × List Char)
  | [] => none
  | c :: rest =>
    if c = '-' ∨ c = ']' then none
    else
      match if c = '\\' then rest else c :: rest with
      | d :: more => if more = [] then none else some (d, more)
      | [] => none

def parseRanges : Nat → List (Char × Char) → List Char → Option (List (Char × Char) × List Char)
  | 0, _, _ => none
  | fuel + 1, ranges, chunk =>
    if chunk.head? = some ']' ∧ ranges ≠ [] then some (ranges, chunk.drop 1)
    else
      match getEsc chunk with
      | none => none
      | some (low, '-' :: rest) =>
        match getEsc rest with
        | none => none
        | some (high, more) => parseRanges fuel (ranges ++ [(low, high)]) more
      | some (low, rest) => parseRanges fuel (ranges ++ [(low, low)]) rest

def parseTerm : List Char → Option (Term × List Char)
  | [] => none
  | '*' :: rest => some (.star, rest)
  | '?' :: rest => some (.any, rest)
  | '[' :: '^' :: rest =>
    (parseRanges rest.length [] rest).map fun (ranges, more) => (.oneOf true ranges, more)
  | '[' :: rest =>
    (parseRanges rest.length [] rest).map fun (ranges, more) => (.oneOf false ranges, more)
  | '\\' :: c :: rest => some (.char c, rest)
  | ['\\'] => none
  | c :: rest => some (.char c, rest)

def parseTerms : Nat → List Char → Option (List Term)
  | _, [] => some []
  | 0, _ :: _ => none
  | fuel + 1, pattern =>
    match parseTerm pattern with
    | none => none
    | some (term, rest) => (parseTerms fuel rest).map fun terms => term :: terms

/-! ## Matching -/

def skips : List Char → List (List Char)
  | [] => [[]]
  | c :: rest => (c :: rest) :: if c = '/' then [] else skips rest

def matchTerms : List Term → List Char → Bool
  | [], name => name.isEmpty
  | .star :: rest, name => (skips name).any (matchTerms rest)
  | .any :: _, [] => false
  | .any :: rest, c :: name => c ≠ '/' && matchTerms rest name
  | .oneOf .. :: _, [] => false
  | .oneOf negated ranges :: rest, c :: name =>
    ((ranges.any fun (low, high) => low ≤ c && c ≤ high) != negated) && matchTerms rest name
  | .char _ :: _, [] => false
  | .char d :: rest, c :: name => c = d && matchTerms rest name

/-- `path.Match`; none is `ErrBadPattern`. -/
def pathMatch (pattern name : String) : Option Bool :=
  (parseTerms pattern.length pattern.toList).map fun terms => matchTerms terms name.toList

def Matches (pattern name : String) : Prop :=
  pathMatch pattern name = some true
  deriving Decidable

/-! ## How many slashes a pattern can match -/

theorem parseTerms_length {fuel : Nat} {pattern : List Char} {terms : List Term}
    (hparse : parseTerms fuel pattern = some terms) : terms.length ≤ fuel := by
  induction fuel generalizing pattern terms with
  | zero =>
    cases pattern with
    | nil =>
      cases hparse
      exact Nat.le_refl 0
    | cons c rest => cases hparse
  | succ fuel ih =>
    cases pattern with
    | nil =>
      cases hparse
      exact Nat.zero_le _
    | cons c rest =>
      simp only [parseTerms] at hparse
      split at hparse
      · cases hparse
      · obtain ⟨more, hmore, rfl⟩ := Option.map_eq_some_iff.mp hparse
        exact Nat.succ_le_succ (ih hmore)

theorem count_skips {name rest : List Char} (hrest : rest ∈ skips name) :
    rest.count '/' = name.count '/' := by
  induction name with
  | nil =>
    rw [List.mem_singleton.mp hrest]
  | cons c name ih =>
    rcases List.mem_cons.mp hrest with rfl | hrest
    · rfl
    · split at hrest
      · cases hrest
      · rename_i hc
        rw [ih hrest, List.count_cons_of_ne hc]

theorem count_le_of_matchTerms {terms : List Term} {name : List Char}
    (hmatch : matchTerms terms name = true) : name.count '/' ≤ terms.length := by
  induction terms generalizing name with
  | nil =>
    have hempty : name = [] := by simpa [matchTerms] using hmatch
    rw [hempty]
    exact Nat.le_refl 0
  | cons term rest ih =>
    rw [List.length_cons]
    cases term with
    | star =>
      obtain ⟨left, hleft, hrest⟩ := List.any_eq_true.mp hmatch
      rw [← count_skips hleft]
      exact Nat.le_succ_of_le (ih hrest)
    | any | oneOf negated ranges | char d =>
      cases name with
      | nil => exact Nat.zero_le _
      | cons c name =>
        have hrest := ih (Bool.and_eq_true_iff.mp hmatch).2
        rw [List.count_cons]
        split <;> omega

theorem not_matches_of_count {pattern name : String}
    (hcount : pattern.length < name.toList.count '/') : ¬ Matches pattern name := by
  intro hmatches
  obtain ⟨terms, hparse, hmatch⟩ := Option.map_eq_some_iff.mp hmatches
  have hterms := parseTerms_length hparse
  have hslashes := count_le_of_matchTerms hmatch
  omega

/-! ## Patterns without special characters -/

def special : List Char :=
  ['*', '?', '[', '\\']

def Plain (pattern : String) : Prop :=
  ∀ c ∈ pattern.toList, c ∉ special

instance : DecidablePred Plain :=
  fun pattern => List.decidableBAll _ pattern.toList

theorem parseTerm_of_plain {c : Char} (hc : c ∉ special) (rest : List Char) :
    parseTerm (c :: rest) = some (.char c, rest) := by
  simp only [special, List.mem_cons, List.not_mem_nil, or_false, not_or] at hc
  unfold parseTerm
  split <;> simp_all

theorem parseTerms_of_plain {pattern : List Char} (hplain : ∀ c ∈ pattern, c ∉ special) :
    parseTerms pattern.length pattern = some (pattern.map Term.char) := by
  induction pattern with
  | nil => rfl
  | cons c rest ih =>
    have hrest := ih fun d hd => hplain d (List.mem_cons_of_mem c hd)
    simp only [List.length_cons, parseTerms, parseTerm_of_plain (hplain c List.mem_cons_self),
      hrest, Option.map_some, List.map_cons]

theorem matchTerms_chars (pattern name : List Char) :
    matchTerms (pattern.map Term.char) name = true ↔ name = pattern := by
  induction pattern generalizing name with
  | nil => simp [matchTerms]
  | cons c rest ih =>
    cases name with
    | nil => simp [matchTerms]
    | cons d name => simp [matchTerms, ih]

theorem matches_iff_of_plain {pattern : String} (hplain : Plain pattern) (name : String) :
    Matches pattern name ↔ name = pattern := by
  unfold Matches pathMatch
  rw [← String.length_toList, parseTerms_of_plain hplain, Option.map_some, Option.some.injEq,
    matchTerms_chars, String.toList_inj]

end FondacoFormal.Library.Glob
