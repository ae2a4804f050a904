import Mathlib.Algebra.Ring.Nat
import Mathlib.Data.Prod.Lex
import FondacoFormal.Library.Best

/-!
# Access paths

A pattern is an exact path, ends in `*` for any remainder, or has `+` for one
segment.  A match says how specific it is, and specificities are totally ordered.
-/

namespace FondacoFormal.Access

structure Specificity where
  exact : Bool
  pluses : Nat
  literal : Nat
  segments : Nat
  deriving DecidableEq, Repr

namespace Specificity

/-- `beats`. -/
def beats (s other : Specificity) : Bool :=
  if s.exact ≠ other.exact then s.exact
  else if s.pluses ≠ other.pluses then s.pluses < other.pluses
  else if s.literal ≠ other.literal then s.literal > other.literal
  else s.segments > other.segments

/-- What `beats` compares, most significant first. -/
def key (s : Specificity) : Bool ×ₗ Natᵒᵈ ×ₗ Nat ×ₗ Nat :=
  toLex (s.exact, toLex (OrderDual.toDual s.pluses, toLex (s.literal, s.segments)))

theorem key_injective : Function.Injective key := by
  rintro ⟨exact, pluses, literal, segments⟩ ⟨exact', pluses', literal', segments'⟩ heq
  simp only [key, EmbeddingLike.apply_eq_iff_eq, Prod.mk.injEq] at heq
  obtain ⟨rfl, rfl, rfl, rfl⟩ := heq
  rfl

instance : LinearOrder Specificity :=
  LinearOrder.lift' key key_injective

theorem beats_iff (s other : Specificity) : s.beats other = true ↔ other < s := by
  change _ ↔ other.key < s.key
  unfold beats key
  simp only [Prod.Lex.toLex_lt_toLex, OrderDual.toDual_lt_toDual, EmbeddingLike.apply_eq_iff_eq]
  split_ifs with hexact hpluses hliteral
  · cases hs : s.exact <;> cases ho : other.exact <;> simp_all
  · simp_all [eq_comm]
  · simp_all [eq_comm]
  · simp_all

end Specificity

/-- `strings.CutSuffix` with a star. -/
def cutStar (pattern : List Char) : List Char × Bool :=
  if pattern.getLast? = some '*' then (pattern.dropLast, true) else (pattern, false)

/-- `strings.Split` at slashes. -/
def splitPath (path : List Char) : List (List Char) :=
  path.splitOn '/'

def byteLength (text : List Char) : Nat :=
  (text.map Char.utf8Size).sum

/-- The loop of `match` over the segments of the pattern. -/
def matchSegments (trailing : Bool) :
    List (List Char) → List (List Char) → Specificity → Option Specificity
  | [], _, score => some score
  | segment :: rest, pathSegs, score =>
    let last := rest.isEmpty
    if segment = ['+'] then
      match pathSegs with
      | [] => none
      | _ :: more => matchSegments trailing rest more { score with pluses := score.pluses + 1 }
    else
      match pathSegs with
      | [] =>
        if trailing && last && segment.isEmpty then matchSegments trailing rest [] score
        else none
      | first :: more =>
        if if last && trailing then segment.isPrefixOf first else first = segment then
          matchSegments trailing rest more
            { score with literal := score.literal + byteLength segment }
        else none

/-- `match`. -/
def matchPath (pattern path : String) : Option Specificity :=
  let (stem, trailing) := cutStar pattern.toList
  let score : Specificity :=
    { exact := !trailing && !pattern.toList.contains '+'
      pluses := 0
      literal := 0
      segments := stem.count '/' }
  let patternSegs := splitPath stem
  let pathSegs := splitPath path.toList
  if !trailing && patternSegs.length ≠ pathSegs.length then none
  else if trailing && pathSegs.length < patternSegs.length &&
      pathSegs.length < patternSegs.length - 1 then none
  else matchSegments trailing patternSegs pathSegs score

end FondacoFormal.Access
