import Mathlib.Data.List.Infix
import Mathlib.Data.String.Basic

/-!
# Slash-separated paths

A path is read as the list of its segments.  The text and the list say the same, so what
is to be known of a text (where it starts, which texts lie below it) is read off the
list.
-/

namespace FondacoFormal.Library.Paths

def segments (p : List Char) : List (List Char) :=
  p.splitOn '/'

def Proper (s : List Char) : Prop :=
  s ≠ [] ∧ s ≠ ['.'] ∧ s ≠ ['.', '.']
  deriving Decidable

theorem segments_ne_nil (p : List Char) : segments p ≠ [] :=
  List.splitOn_ne_nil '/' p

theorem intercalate_segments (p : List Char) : ['/'].intercalate (segments p) = p :=
  List.intercalate_splitOn '/'

theorem segments_injective : Function.Injective segments := by
  intro a b heq
  rw [← intercalate_segments a, heq, intercalate_segments]

theorem segments_intercalate {names : List (List Char)} (hfree : ∀ s ∈ names, '/' ∉ s)
    (hne : names ≠ []) : segments (['/'].intercalate names) = names :=
  List.splitOn_intercalate '/' hfree hne

theorem segments_of_not_mem {s : List Char} (hfree : '/' ∉ s) : segments s = [s] :=
  List.splitOn_eq_singleton hfree

@[simp] theorem segments_append_slash (a b : List Char) :
    segments (a ++ '/' :: b) = segments a ++ segments b :=
  List.splitOn_append_cons_self a b

theorem segments_cons (c : Char) (p : List Char) :
    segments (c :: p) =
      if c = '/' then [] :: segments p else (segments p).modifyHead (List.cons c) := by
  rw [segments, List.splitOn_cons_eq_if_modifyHead]
  simp [segments]

theorem slash_not_mem_segment {p s : List Char} (hs : s ∈ segments p) : '/' ∉ s := by
  induction p generalizing s with
  | nil =>
    rw [segments, List.splitOn_nil, List.mem_singleton] at hs
    simp [hs]
  | cons c p ih =>
    obtain ⟨first, rest, hsplit⟩ := List.exists_cons_of_ne_nil (segments_ne_nil p)
    rw [segments_cons, hsplit] at hs
    rw [hsplit] at ih
    split at hs
    · obtain rfl | hs := List.mem_cons.1 hs
      · simp
      · exact ih hs
    · next hc =>
        obtain rfl | hs := List.mem_cons.1 hs
        · simp [Ne.symm hc, ih List.mem_cons_self]
        · exact ih (List.mem_cons_of_mem _ hs)

variable {a b : List Char}

theorem segments_append (hfree : '/' ∉ b) :
    segments (a ++ b) =
      (segments a).dropLast ++ [(segments a).getLast (segments_ne_nil a) ++ b] := by
  induction a with
  | nil =>
    rw [List.nil_append, segments_of_not_mem hfree]
    simp [segments_of_not_mem]
  | cons c a ih =>
    obtain ⟨first, rest, hrest⟩ := List.exists_cons_of_ne_nil (segments_ne_nil a)
    simp only [List.cons_append, segments_cons, ih, hrest]
    by_cases hc : c = '/'
    · simp [hc]
    · simp only [hc, if_false, List.modifyHead_cons]
      cases rest with
      | nil | cons second rest => simp

/-! ## The order of paths -/

def slashLt (c d : Char) : Prop :=
  (c = '/' ∧ d ≠ '/') ∨ (c ≠ '/' ∧ d ≠ '/' ∧ c < d)

theorem segments_lt_iff (a b : List Char) : segments a < segments b ↔ List.Lex slashLt a b := by
  induction a generalizing b with
  | nil =>
    cases b with
    | nil =>
      constructor
      · intro h
        exact absurd h (lt_irrefl _)
      · intro h
        cases h
    | cons d b =>
      refine iff_of_true ?_ List.Lex.nil
      obtain ⟨first, rest, hrest⟩ := List.exists_cons_of_ne_nil (segments_ne_nil b)
      rw [segments_cons, hrest, segments_of_not_mem (by simp)]
      split
      · exact List.Lex.cons List.Lex.nil
      · exact List.Lex.rel List.Lex.nil
  | cons c a ih =>
    obtain ⟨first, rest, hrest⟩ := List.exists_cons_of_ne_nil (segments_ne_nil a)
    cases b with
    | nil =>
      refine iff_of_false (fun h => ?_) (fun h => by cases h)
      rw [segments_cons, hrest, segments_of_not_mem (by simp)] at h
      split at h
      · obtain h | h := List.cons_lt_cons_iff.1 h
        · exact absurd h (lt_irrefl _)
        · exact absurd h.2 (List.not_lt_nil _)
      · obtain h | h := List.cons_lt_cons_iff.1 h
        · exact absurd h (List.not_lt_nil _)
        · exact absurd h.1 (by simp)
    | cons d b =>
      obtain ⟨first', rest', hrest'⟩ := List.exists_cons_of_ne_nil (segments_ne_nil b)
      have hboth := ih b
      rw [hrest, hrest'] at hboth
      rw [segments_cons, segments_cons, hrest, hrest']
      rw [List.cons_lex_cons_iff]
      by_cases hc : c = '/'
      · by_cases hd : d = '/'
        · simp [hc, hd, slashLt, List.cons_lt_cons_iff, ← hboth]
        · simp [hc, hd, slashLt, List.cons_lt_cons_iff]
      · by_cases hd : d = '/'
        · simp [hc, hd, slashLt, List.cons_lt_cons_iff]
        · simp only [hc, hd, if_false, List.modifyHead_cons, List.cons_lt_cons_iff, slashLt,
            List.cons.injEq]
          rw [← hboth, List.cons_lt_cons_iff]
          tauto

/-- The texts first differ where one has a slash and the other a character that sorts before
the slash. -/
def Crossed (a b : List Char) : Prop :=
  ∃ common rest rest' c, a = common ++ '/' :: rest ∧ b = common ++ c :: rest' ∧ c < '/'

theorem lt_or_crossed (hlex : List.Lex slashLt a b) : a < b ∨ Crossed a b := by
  induction hlex with
  | nil => exact .inl List.Lex.nil
  | @cons c a b hlex ih =>
    obtain hlt | ⟨common, rest, rest', d, rfl, rfl, hd⟩ := ih
    · exact .inl (List.Lex.cons hlt)
    · exact .inr ⟨c :: common, rest, rest', d, rfl, rfl, hd⟩
  | @rel c a d b hrel =>
    obtain ⟨rfl, hd⟩ | ⟨-, -, hlt⟩ := hrel
    · obtain hlt | heq | hgt := lt_trichotomy '/' d
      · exact .inl (List.Lex.rel hlt)
      · exact absurd heq.symm hd
      · exact .inr ⟨[], a, b, d, rfl, rfl, hgt⟩
    · exact .inl (List.Lex.rel hlt)

/-- Of crossed texts the one with the slash comes first name by name, and last as a text. -/
theorem Crossed.turned (hcrossed : Crossed a b) : segments a < segments b ∧ b < a := by
  obtain ⟨common, rest, rest', c, rfl, rfl, hc⟩ := hcrossed
  constructor
  · rw [segments_lt_iff]
    exact List.Lex.append_left _ (List.Lex.rel (.inl ⟨rfl, hc.ne⟩)) common
  · exact List.append_left_lt (List.Lex.rel hc)

end FondacoFormal.Library.Paths
