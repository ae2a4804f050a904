import FondacoFormal.Library.Sorting
import FondacoFormal.Library.Text
import Mathlib.Data.String.Basic

/-!
# Semantic versions

The order of versions that the npm and Helm modules share: the segments of the core from
left to right, then the pre-release as a text.
-/

namespace FondacoFormal.Formats.Semver

open Library

/-- `atoi`, with the overflow of a 64-bit integer. -/
def atoi (s : String) : Option Int :=
  if s = "" || s.toList.any (fun c => !c.isDigit) then none
  else some (s.toList.foldl (fun n c => (n * 10 + (c.toNat - 48 : Int)).bmod (2 ^ 64)) 0)

/-- `strings.Compare`. -/
def compareTexts (a b : String) : Ordering :=
  if a < b then .lt else if b < a then .gt else .eq

/-- `compareNumericSegment`. -/
def compareNumericSegment (a b : String) : Ordering :=
  match atoi a, atoi b with
  | some an, some bn => compare an bn
  | _, _ => compareTexts a b

def parts (v : String) : String × String :=
  (Text.cut v '-').getD (v, "")

def comparePre (a b : String) : Ordering :=
  if a = "" then if b = "" then .eq else .gt
  else if b = "" then .lt
  else compareTexts a b

/-- `Compare`; a missing segment is zero. -/
def compare (a b : String) : Ordering :=
  let segments := List.zipWithAll
    (fun x y => compareNumericSegment (x.getD "0") (y.getD "0"))
    (Text.split (parts a).1 '.') (Text.split (parts b).1 '.')
  (segments.foldr Ordering.then .eq).then (comparePre (parts a).2 (parts b).2)

/-- `Compare(a, b) < 0`. -/
def less (a b : String) : Bool :=
  compare a b = .lt

/-! ## Exchanging the versions -/

variable (a b : String)

theorem compareTexts_swap : (compareTexts a b).swap = compareTexts b a := by
  rw [compareTexts, compareTexts]
  rcases lt_trichotomy a b with hlt | rfl | hgt
  · rw [if_pos hlt, if_neg hlt.asymm, if_pos hlt]
    rfl
  · simp
  · rw [if_neg hgt.asymm, if_pos hgt, if_pos hgt]
    rfl

theorem compareNumericSegment_swap :
    (compareNumericSegment a b).swap = compareNumericSegment b a := by
  rw [compareNumericSegment, compareNumericSegment]
  rcases atoi a with _ | an <;> rcases atoi b with _ | bn
  · exact compareTexts_swap a b
  · exact compareTexts_swap a b
  · exact compareTexts_swap a b
  · exact (Std.OrientedOrd.eq_swap : Ord.compare bn an = _).symm

theorem comparePre_swap : (comparePre a b).swap = comparePre b a := by
  rw [comparePre, comparePre]
  by_cases ha : a = ""
  · by_cases hb : b = "" <;> simp [ha, hb]
  · by_cases hb : b = ""
    · simp [ha, hb]
    · rw [if_neg ha, if_neg hb, if_neg hb, if_neg ha]
      exact compareTexts_swap a b

theorem compare_swap : (compare a b).swap = compare b a := by
  rw [compare, compare, Ordering.swap_then, comparePre_swap]
  rw [zipWithAll_swap fun x y => compareNumericSegment_swap (x.getD "0") (y.getD "0")]

theorem less_asymm (h : less a b = true) : less b a = false := by
  have hlt : compare a b = .lt := by simpa [less] using h
  have hgt : compare b a = .gt := by rw [← compare_swap, hlt]; rfl
  simp [less, hgt]

end FondacoFormal.Formats.Semver
