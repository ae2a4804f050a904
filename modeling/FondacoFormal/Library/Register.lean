import Mathlib.Order.Bounds.Basic

/-!
# Last-writer-wins registers

A register keeps the greatest of the values written to it. What it holds is determined by the
set of writes: neither their order nor their number matters.
-/

namespace FondacoFormal.Library.Register

variable {β : Type*} [LinearOrder β] {writes : Set β} {stored value : β}

/-- The register is empty if nothing was written, and else has the greatest write. -/
def Holds (writes : Set β) : Option β → Prop
  | none => writes = ∅
  | some value => IsGreatest writes value

namespace Holds

theorem unique {left right : Option β} (hleft : Holds writes left) (hright : Holds writes right) :
    left = right := by
  cases left with
  | none =>
    cases right with
    | none => rfl
    | some value =>
      unfold Holds at hleft hright
      rw [hleft] at hright
      exact absurd hright.1 (Set.notMem_empty value)
  | some stored =>
    cases right with
    | none =>
      unfold Holds at hleft hright
      rw [hright] at hleft
      exact absurd hleft.1 (Set.notMem_empty stored)
    | some value => exact congrArg some (IsGreatest.unique hleft hright)

theorem map_eq {ι κ γ : Type*} {left : Option ι} {right : Option κ} {f : ι → β} {g : κ → β}
    (label : β → γ) (hleft : Holds writes (left.map f)) (hright : Holds writes (right.map g)) :
    left.map (label ∘ f) = right.map (label ∘ g) := by
  rw [← Option.map_map, ← Option.map_map, hleft.unique hright]

theorem write_new (held : Holds writes none) (value : β) :
    Holds (insert value writes) (some value) := by
  unfold Holds at held ⊢
  rw [held, insert_empty_eq]
  exact isGreatest_singleton

variable (held : Holds writes (some stored))

include held

theorem mem : stored ∈ writes :=
  held.1

theorem write_later (hlater : stored < value) : Holds (insert value writes) (some value) := by
  have hmax := IsGreatest.insert value held
  rw [max_eq_left hlater.le] at hmax
  exact hmax

theorem write_earlier (hearlier : value ≤ stored) : Holds (insert value writes) (some stored) := by
  have hmax := IsGreatest.insert value held
  rw [max_eq_right hearlier] at hmax
  exact hmax

end Holds

/-! ## Registers that trail their own writes -/

variable {γ : Type*}

/--
The register shows a value with the label of the greatest write, of the same rank
or, if the write is its own, of an earlier one.
-/
inductive Trails (writes own : Set β) (label : β → γ) : Option β → Prop where
  | empty (nothing : writes = ∅) : Trails writes own label none
  | held {shown top : β} (greatest : IsGreatest writes top) (before : shown ≤ top)
      (same : label shown = label top) (mine : shown = top ∨ top ∈ own) :
      Trails writes own label (some shown)

namespace Trails

variable {own more seen : Set β} {label : β → γ} {shown after : Option β}

theorem label_unique {other : Option β} (left : Trails writes own label shown)
    (right : Trails writes more label other) : shown.map label = other.map label := by
  cases left with
  | empty nothing =>
    cases right with
    | empty _ => rfl
    | held greatest before same mine =>
      rw [nothing] at greatest
      exact absurd greatest.1 (Set.notMem_empty _)
  | held greatest before same mine =>
    cases right with
    | empty nothing =>
      rw [nothing] at greatest
      exact absurd greatest.1 (Set.notMem_empty _)
    | held greatest' before' same' mine' =>
      rw [Option.map_some, Option.map_some, same, same', greatest.unique greatest']

section

variable (trails : Trails writes own label shown)

include trails

variable (hshown : Holds seen shown)

include hshown

theorem of_same (hafter : Holds seen after) : Trails writes own label after := by
  rw [← hshown.unique hafter]
  exact trails

/-- A write of another register, unless it falls between the two ranks of an own one. -/
theorem write (hafter : Holds (insert value seen) after)
    (hapart : ∀ v, shown = some v → ∀ x ∈ own, label x = label v → ¬ (v < value ∧ value < x)) :
    Trails (insert value writes) own label after := by
  cases trails with
  | empty nothing =>
    rw [← (hshown.write_new value).unique hafter, nothing, insert_empty_eq]
    exact .held isGreatest_singleton le_rfl rfl (.inl rfl)
  | @held v top greatest before same mine =>
    have hmax := greatest.insert value
    by_cases hlater : v < value
    · rw [← (hshown.write_later hlater).unique hafter]
      have htop : top ≤ value := by
        rcases mine with rfl | hown
        · exact hlater.le
        · exact not_lt.mp fun hlt => hapart v rfl top hown same.symm ⟨hlater, hlt⟩
      rw [max_eq_left htop] at hmax
      exact .held hmax le_rfl rfl (.inl rfl)
    · have hle := not_lt.mp hlater
      rw [← (hshown.write_earlier hle).unique hafter]
      rw [max_eq_right (hle.trans before)] at hmax
      exact .held hmax before same mine

/-- An own write later than everything: shown under one rank, announced under another. -/
theorem announce {top : β} (hafter : Holds (insert value seen) after)
    (hlater : ∀ x ∈ writes, x < value) (hle : value ≤ top) (hlabel : label value = label top)
    (hmine : top ∈ more) : Trails (insert top writes) more label after := by
  cases trails with
  | empty nothing =>
    rw [← (hshown.write_new value).unique hafter, nothing, insert_empty_eq]
    exact .held isGreatest_singleton hle hlabel (.inr hmine)
  | @held v last greatest before same mine =>
    have hlast := hlater last greatest.1
    rw [← (hshown.write_later (before.trans_lt hlast)).unique hafter]
    have hmax := greatest.insert top
    rw [max_eq_left (hlast.le.trans hle)] at hmax
    exact .held hmax hle hlabel (.inr hmine)

end

theorem bounded (trails : Trails writes own label (some value)) : ∃ x ∈ writes, value ≤ x := by
  cases trails with
  | held greatest before same mine => exact ⟨_, greatest.1, before⟩

end Trails

end FondacoFormal.Library.Register
