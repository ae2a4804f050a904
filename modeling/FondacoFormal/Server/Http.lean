import Mathlib.Data.List.TakeWhile

/-!
# Requests between sites

What of HTTP and of URLs a write request passes through when one site hands it to
another: header values, request targets and their percent-encoding.
-/

namespace FondacoFormal.Server

abbrev Bytes := List UInt8

/-! ## Header values -/

def controlChar (c : Char) : Bool :=
  (c.toNat < 32 && c ≠ '\t') || c.toNat = 127

def blank (c : Char) : Bool :=
  c = ' ' || c = '\t'

def trimBlanks (s : List Char) : List Char :=
  ((s.dropWhile blank).reverse.dropWhile blank).reverse

/-- What arrives of a header value; a value with control characters is not sent. -/
def headerValue (s : String) : Option String :=
  if s.toList.any controlChar then none else some (String.ofList (trimBlanks s.toList))

abbrev HeaderValue := { s : String // headerValue s = some s }

def tokenChar (c : Char) : Bool :=
  c.isAlphanum || "!#$%&'*+-.^_`|~".toList.contains c

/-- `validMethod`. -/
def validMethod (method : String) : Bool :=
  method ≠ "" && method.toList.all tokenChar

theorem validMethod_put : validMethod "PUT" = true := by
  decide

theorem validMethod_post : validMethod "POST" = true := by
  decide

/-! ## Request targets -/

def slash : UInt8 := 47
def percent : UInt8 := 37
def question : UInt8 := 63
def hash : UInt8 := 35

/-- `stringContainsCTLByte`. -/
def controlByte (b : UInt8) : Bool :=
  b < 32 || b = 127

def hexDigit (b : UInt8) : Option UInt8 :=
  if 48 ≤ b ∧ b ≤ 57 then some (b - 48)
  else if 97 ≤ b ∧ b ≤ 102 then some (b - 87)
  else if 65 ≤ b ∧ b ≤ 70 then some (b - 55)
  else none

/-- `unescape` for a path or a fragment. -/
def unescape : Bytes → Option Bytes
  | [] => some []
  | b :: rest =>
    if b = percent then
      match rest with
      | high :: low :: more =>
        match hexDigit high, hexDigit low with
        | some h, some l => (unescape more).map fun tail => (h * 16 + l) :: tail
        | _, _ => none
      | _ => none
    else (unescape rest).map fun tail => b :: tail

/-- `strings.Cut` at a byte. -/
def cutAt (b : UInt8) (raw : Bytes) : Bytes × Bytes :=
  (raw.takeWhile fun c => c ≠ b, (raw.dropWhile fun c => c ≠ b).drop 1)

structure Target where
  path : Bytes
  query : Bytes
  deriving DecidableEq

/--
`url.Parse` of a target that starts with a slash; `acceptsHost` says which
authorities it accepts.
-/
def parseTarget (acceptsHost : Bytes → Bool) (raw : Bytes) : Option Target :=
  if raw.any controlByte then none
  else
    let (beforeFragment, fragment) := cutAt hash raw
    let (rest, query) := cutAt question beforeFragment
    match unescape fragment with
    | none => none
    | some _ =>
      if [slash, slash].isPrefixOf rest && !([slash, slash, slash].isPrefixOf rest) then
        let host := (rest.drop 2).takeWhile fun c => c ≠ slash
        let path := (rest.drop 2).dropWhile fun c => c ≠ slash
        if acceptsHost host then (unescape path).map fun path => ⟨path, query⟩ else none
      else (unescape rest).map fun path => ⟨path, query⟩

/-- `strings.TrimPrefix` with a slash. -/
def trimSlash : Bytes → Bytes
  | [] => []
  | b :: rest => if b = slash then rest else b :: rest

/-! ## Targets that parse to themselves -/

def Plain (raw : Bytes) : Prop :=
  ∀ b ∈ raw, controlByte b = false ∧ b ≠ percent ∧ b ≠ question ∧ b ≠ hash

theorem unescape_spec {raw out : Bytes} (hout : unescape raw = some out) :
    out.length ≤ raw.length ∧ (out.length = raw.length → out = raw ∧ percent ∉ raw) := by
  induction raw using unescape.induct generalizing out with
  | case1 =>
    cases hout
    simp
  | case2 high low more h l hhigh hlow ih =>
    simp only [unescape, if_true, hhigh, hlow, Option.map_eq_some_iff] at hout
    obtain ⟨tail, htail, rfl⟩ := hout
    have hlength := (ih htail).1
    simp only [List.length_cons]
    omega
  | case3 high low more hnone | case4 rest hshort =>
    simp only [unescape, if_true] at hout
    exact absurd hout nofun
  | case5 b rest hb ih =>
    unfold unescape at hout
    rw [if_neg hb, Option.map_eq_some_iff] at hout
    obtain ⟨tail, htail, rfl⟩ := hout
    obtain ⟨hle, heq⟩ := ih htail
    refine ⟨by simpa using hle, ?_⟩
    intro hlength
    obtain ⟨rfl, hmem⟩ := heq (by simpa using hlength)
    exact ⟨rfl, by simp [hmem, Ne.symm hb]⟩

theorem unescape_slash {front back out : Bytes}
    (hout : unescape (front ++ slash :: back) = some out) :
    ∃ first second, unescape front = some first ∧ unescape back = some second ∧
      out = first ++ slash :: second := by
  have hhex : hexDigit slash = none := rfl
  induction front using unescape.induct generalizing out with
  | case1 =>
    rw [List.nil_append] at hout
    unfold unescape at hout
    rw [if_neg (by decide), Option.map_eq_some_iff] at hout
    obtain ⟨second, hsecond, rfl⟩ := hout
    exact ⟨[], second, rfl, hsecond, rfl⟩
  | case2 high low more h l hhigh hlow ih =>
    simp only [List.cons_append, unescape, if_true, hhigh, hlow, Option.map_eq_some_iff] at hout
    obtain ⟨tail, htail, rfl⟩ := hout
    obtain ⟨first, second, hfirst, hsecond, rfl⟩ := ih htail
    refine ⟨(h * 16 + l) :: first, second, ?_, hsecond, rfl⟩
    simp only [unescape, if_true, hhigh, hlow, hfirst, Option.map_some]
  | case3 high low more hnone =>
    simp only [List.cons_append, unescape, if_true] at hout
    cases hout
  | case4 rest hshort =>
    match rest, hshort with
    | [], _ =>
      cases back with
      | nil => cases hout
      | cons low more => simp [unescape, hhex] at hout
    | [high], _ => simp [unescape, hhex] at hout
    | high :: low :: more, hshort => exact absurd rfl (hshort high low more)
  | case5 b rest hb ih =>
    rw [List.cons_append] at hout
    unfold unescape at hout
    rw [if_neg hb, Option.map_eq_some_iff] at hout
    obtain ⟨tail, htail, rfl⟩ := hout
    obtain ⟨first, second, hfirst, hsecond, rfl⟩ := ih htail
    refine ⟨b :: first, second, ?_, hsecond, rfl⟩
    unfold unescape
    rw [if_neg hb, hfirst]
    rfl

variable {raw : Bytes}

theorem unescape_plain (hraw : percent ∉ raw) : unescape raw = some raw := by
  induction raw with
  | nil => rfl
  | cons b rest ih =>
    rw [List.mem_cons, not_or] at hraw
    unfold unescape
    rw [if_neg (Ne.symm hraw.1), ih hraw.2]
    rfl

theorem cutAt_of_not_mem {b : UInt8} (hb : b ∉ raw) : cutAt b raw = (raw, []) := by
  have hall : ∀ c ∈ raw, decide (c ≠ b) = true := by
    intro c hc
    rw [decide_eq_true_eq]
    rintro rfl
    exact hb hc
  unfold cutAt
  rw [List.takeWhile_eq_self_iff.mpr hall, List.dropWhile_eq_nil_iff.mpr hall]
  rfl

theorem cutAt_fst_spec (b : UInt8) (raw : Bytes) :
    (cutAt b raw).1.length ≤ raw.length ∧
      ((cutAt b raw).1.length = raw.length → b ∉ raw) := by
  have hstart : (cutAt b raw).1 <+: raw := List.takeWhile_prefix _
  refine ⟨hstart.length_le, ?_⟩
  intro hlength hmem
  have hself := List.takeWhile_eq_self_iff.mp (hstart.eq_of_length hlength)
  simpa using hself b hmem

theorem parseTarget_plain (hplain : Plain raw) (hslashes : [slash, slash].isPrefixOf raw = false)
    (acceptsHost : Bytes → Bool) : parseTarget acceptsHost raw = some ⟨raw, []⟩ := by
  have hcontrol : raw.any controlByte = false := by
    rw [List.any_eq_false]
    intro b hb
    simp [(hplain b hb).1]
  have hpercent : percent ∉ raw := fun hmem => (hplain _ hmem).2.1 rfl
  have hquestion : question ∉ raw := fun hmem => (hplain _ hmem).2.2.1 rfl
  have hhash : hash ∉ raw := fun hmem => (hplain _ hmem).2.2.2 rfl
  have hempty : unescape [] = some [] := rfl
  unfold parseTarget
  simp only [hcontrol, cutAt_of_not_mem hhash, cutAt_of_not_mem hquestion, hempty, hslashes,
    unescape_plain hpercent, Bool.false_eq_true, if_false, Bool.false_and, Option.map_some]

variable {acceptsHost : Bytes → Bool} {target : Target}

theorem parseTarget_spec (hparse : parseTarget acceptsHost raw = some target) :
    target.path.length ≤ raw.length ∧ (target.path.length = raw.length → Plain raw) := by
  have hfragment := cutAt_fst_spec hash raw
  have hquery := cutAt_fst_spec question (cutAt hash raw).1
  unfold parseTarget at hparse
  dsimp only at hparse
  split at hparse
  · cases hparse
  · rename_i hcontrol
    split at hparse
    · cases hparse
    · split at hparse
      · rename_i hhost
        split at hparse
        · obtain ⟨path, hpath, rfl⟩ := Option.map_eq_some_iff.mp hparse
          have hlength := (unescape_spec hpath).1
          have hstart : 2 ≤ (cutAt question (cutAt hash raw).1).1.length := by
            have hslashes : [slash, slash] <+: (cutAt question (cutAt hash raw).1).1 := by
              simp only [Bool.and_eq_true] at hhost
              exact List.isPrefixOf_iff_prefix.mp hhost.1
            exact hslashes.length_le
          have hrest := (List.dropWhile_suffix (l := (cutAt question (cutAt hash raw).1).1.drop 2)
            fun c => decide (c ≠ slash)).length_le
          rw [List.length_drop] at hrest
          dsimp only
          omega
        · cases hparse
      · obtain ⟨path, hpath, rfl⟩ := Option.map_eq_some_iff.mp hparse
        have hlength := unescape_spec hpath
        refine ⟨by dsimp only; omega, ?_⟩
        intro hsame
        dsimp only at hsame
        have hhash := hfragment.2 (by omega)
        have hwhole : (cutAt hash raw).1 = raw := by rw [cutAt_of_not_mem hhash]
        rw [hwhole] at hquery hlength
        have hquestion := hquery.2 (by omega)
        have hwhole : (cutAt question raw).1 = raw := by rw [cutAt_of_not_mem hquestion]
        rw [hwhole] at hlength
        have hpercent := (hlength.2 hsame).2
        intro b hb
        refine ⟨?_, fun h => hpercent (h ▸ hb), fun h => hquestion (h ▸ hb),
          fun h => hhash (h ▸ hb)⟩
        exact Bool.eq_false_iff.mpr fun h => hcontrol (List.any_eq_true.mpr ⟨b, hb, h⟩)

/-! ## Paths that survive being parsed again -/

/-- One slash, then at least one byte that is not a slash, and nothing the parser reads. -/
def IntactPath (path : Bytes) : Prop :=
  ∃ rest, path = slash :: rest ∧ rest ≠ [] ∧ rest.head? ≠ some slash ∧ Plain rest

theorem trimSlash_cons_slash (rest : Bytes) : trimSlash (slash :: rest) = rest :=
  rfl

theorem trimSlash_of_head {path : Bytes} (hhead : path.head? ≠ some slash) :
    trimSlash path = path := by
  cases path with
  | nil => rfl
  | cons b rest =>
    have hb : b ≠ slash := fun hb => hhead (congrArg some hb)
    simp only [trimSlash, if_neg hb]

theorem single_slash {rest : Bytes} (hhead : rest.head? ≠ some slash) :
    [slash, slash].isPrefixOf (slash :: rest) = false := by
  cases rest with
  | nil => rfl
  | cons b more =>
    have hb : slash ≠ b := fun heq => hhead (congrArg some heq.symm)
    simp [List.isPrefixOf, hb]

theorem cutAt_fst_cons {b c : UInt8} (hc : c ≠ b) (raw : Bytes) :
    (cutAt b (c :: raw)).1 = c :: (cutAt b raw).1 := by
  simp [cutAt, hc]

theorem cutAt_fst_head {b c : UInt8} (hraw : raw.head? ≠ some c) :
    (cutAt b raw).1.head? ≠ some c := by
  cases raw with
  | nil => exact nofun
  | cons d rest =>
    have hd : d ≠ c := fun heq => hraw (congrArg some heq)
    by_cases hdb : d = b
    · simp [cutAt, hdb]
    · rw [cutAt_fst_cons hdb]
      simpa using hd

/-- A target that starts with exactly one slash parses to a path that starts with a slash. -/
theorem parseTarget_head {rest : Bytes} (hrest : rest.head? ≠ some slash)
    (hparse : parseTarget acceptsHost (slash :: rest) = some target) :
    target.path.head? = some slash := by
  have hcut : (cutAt question (cutAt hash (slash :: rest)).1).1 =
      slash :: (cutAt question (cutAt hash rest).1).1 := by
    rw [cutAt_fst_cons (by decide), cutAt_fst_cons (by decide)]
  have hsingle : (cutAt question (cutAt hash rest).1).1.head? ≠ some slash :=
    cutAt_fst_head (cutAt_fst_head hrest)
  have hhost := single_slash hsingle
  unfold parseTarget at hparse
  dsimp only at hparse
  rw [hcut, hhost] at hparse
  split at hparse
  · cases hparse
  · split at hparse
    · cases hparse
    · obtain ⟨path, hpath, rfl⟩ := Option.map_eq_some_iff.mp hparse
      unfold unescape at hpath
      rw [if_neg (by decide)] at hpath
      obtain ⟨tail, -, rfl⟩ := Option.map_eq_some_iff.mp hpath
      rfl

theorem parseTarget_trimmed_iff (acceptsHost : Bytes → Bool) (path query : Bytes) :
    trimSlash path ≠ [] ∧
        parseTarget acceptsHost (slash :: trimSlash (trimSlash path)) = some ⟨path, query⟩ ↔
      IntactPath path ∧ query = [] := by
  constructor
  · rintro ⟨hpath, hparse⟩
    by_cases hhead : path.head? = some slash
    · obtain ⟨rest, rfl⟩ := List.head?_eq_some_iff.mp hhead
      rw [trimSlash_cons_slash] at hpath hparse
      have hspec := parseTarget_spec hparse
      -- a second slash would be dropped, and the path would come back shorter
      have hsingle : rest.head? ≠ some slash := by
        intro hsecond
        obtain ⟨more, rfl⟩ := List.head?_eq_some_iff.mp hsecond
        rw [trimSlash_cons_slash] at hspec
        simp only [List.length_cons] at hspec
        omega
      rw [trimSlash_of_head hsingle] at hparse hspec
      have hplain : Plain (slash :: rest) := hspec.2 rfl
      rw [parseTarget_plain hplain (single_slash hsingle)] at hparse
      cases hparse
      exact ⟨⟨rest, rfl, hpath, hsingle, fun b hb => hplain b (List.mem_cons_of_mem _ hb)⟩, rfl⟩
    · rw [trimSlash_of_head hhead, trimSlash_of_head hhead] at hparse
      exact absurd (parseTarget_head hhead hparse) hhead
  · rintro ⟨⟨rest, rfl, hne, hhead, hplain⟩, rfl⟩
    rw [trimSlash_cons_slash, trimSlash_of_head hhead]
    have hwhole : Plain (slash :: rest) := by
      intro b hb
      rcases List.mem_cons.mp hb with rfl | hb
      · decide
      · exact hplain b hb
    exact ⟨hne, parseTarget_plain hwhole (single_slash hhead) acceptsHost⟩

end FondacoFormal.Server
