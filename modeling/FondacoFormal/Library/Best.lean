import Mathlib.Order.Lattice

/-!
# Keeping the best

One pass over scored items that keeps, in order, all items of the greatest score
seen so far.
-/

namespace FondacoFormal.Library.Best

variable {α σ : Type} [LinearOrder σ]

def keepBest (best : List α × Option σ) (item : α × σ) : List α × Option σ :=
  match best.2 with
  | none => ([item.1], some item.2)
  | some top =>
    if top < item.2 then ([item.1], some item.2)
    else if item.2 = top then (best.1 ++ [item.1], some top)
    else best

def Top (items : List (α × σ)) (score : σ) : Prop :=
  ∀ item ∈ items, item.2 ≤ score

def Kept (items : List (α × σ)) (best : List α × Option σ) : Prop :=
  match best.2 with
  | none => items = [] ∧ best.1 = []
  | some top => Top items top ∧ (∃ item ∈ items, item.2 = top) ∧
      ∀ item, item ∈ best.1 ↔ (item, top) ∈ items

variable {best : List α × Option σ} {items : List (α × σ)}

theorem Kept.next (kept : Kept items best) (item : α × σ) :
    Kept (items ++ [item]) (keepBest best item) := by
  obtain ⟨list, top⟩ := best
  obtain ⟨value, score⟩ := item
  cases top with
  | none =>
    obtain ⟨rfl, rfl⟩ := kept
    simp [Kept, keepBest, Top]
  | some top =>
    obtain ⟨htop, ⟨witness, hmem, hwitness⟩, hlist⟩ := kept
    unfold keepBest
    dsimp only
    split
    · -- A new greatest score: everything kept so far is dropped.
      rename_i hgreater
      refine ⟨?_, ⟨(value, score), by simp, rfl⟩, ?_⟩
      · intro other hother
        rcases List.mem_append.mp hother with hold | hnew
        · exact (htop other hold).trans hgreater.le
        · rw [List.mem_singleton.mp hnew]
      · intro other
        rw [List.mem_singleton, List.mem_append, List.mem_singleton, Prod.mk.injEq]
        constructor
        · exact fun heq => .inr ⟨heq, rfl⟩
        · rintro (hold | ⟨heq, -⟩)
          · exact absurd (htop _ hold) (not_le.mpr hgreater)
          · exact heq
    · rename_i hnot
      have hbound : Top (items ++ [(value, score)]) top := by
        intro other hin
        rcases List.mem_append.mp hin with hold | hnew
        · exact htop other hold
        · rw [List.mem_singleton.mp hnew]
          exact not_lt.mp hnot
      split
      all_goals
        refine ⟨hbound, ⟨witness, List.mem_append_left _ hmem, hwitness⟩, fun other => ?_⟩
        simp only [List.mem_append, List.mem_singleton, Prod.mk.injEq, hlist other]
      · next hsame => exact or_congr_right ⟨fun heq => ⟨heq, hsame.symm⟩, fun heq => heq.1⟩
      · next hother => exact ⟨.inl, fun hin => hin.resolve_right fun heq => hother heq.2.symm⟩

theorem kept_foldl {before items : List (α × σ)} (kept : Kept before best) :
    Kept (before ++ items) (items.foldl keepBest best) := by
  induction items generalizing before best with
  | nil =>
    rw [List.append_nil]
    exact kept
  | cons item rest ih =>
    have hnext := ih (kept.next item)
    rw [List.append_assoc] at hnext
    exact hnext

theorem mem_best {item : α} :
    item ∈ (items.foldl keepBest ([], none)).1 ↔
      ∃ score, (item, score) ∈ items ∧ Top items score := by
  have hstart : Kept ([] : List (α × σ)) ([], none) := ⟨rfl, rfl⟩
  have kept : Kept items (items.foldl keepBest ([], none)) := kept_foldl hstart
  generalize items.foldl keepBest ([], none) = best at kept
  obtain ⟨list, top⟩ := best
  cases top with
  | none =>
    obtain ⟨rfl, rfl⟩ := kept
    simp
  | some top =>
    obtain ⟨htop, ⟨witness, hmem, hwitness⟩, hlist⟩ := kept
    rw [hlist item]
    constructor
    · exact fun hin => ⟨top, hin, htop⟩
    · rintro ⟨score, hin, hscore⟩
      have heq : score = top :=
        le_antisymm (htop _ hin) (hwitness ▸ hscore witness hmem)
      exact heq ▸ hin

end FondacoFormal.Library.Best
