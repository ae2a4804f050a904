import Mathlib.Data.List.Forall2

/-!
# Fallible computations

Inversion of `Except` computations that succeeded, one constructor at a time,
so that a proof about a sequence of statements never unfolds the monad.
-/

namespace FondacoFormal.Library.Fallible

variable {ε α β : Type} {x : Except ε α} {f : α → Except ε β} {b : β}

/-- A sequence succeeds exactly when its first part does and the rest does on its result. -/
theorem bind_eq_ok : x >>= f = .ok b ↔ ∃ a, x = .ok a ∧ f a = .ok b := by
  cases x with
  | error fault | ok a => simp [bind, Except.bind]

theorem map_eq_ok {f : α → β} : x.map f = .ok b ↔ ∃ a, x = .ok a ∧ f a = b := by
  cases x <;> simp [Except.map]

theorem toOption_eq_some {a : α} : x.toOption = some a ↔ x = .ok a := by
  cases x <;> simp [Except.toOption]

/-- Rule for a transaction that leaves the state alone when it fails. -/
theorem getD_keeps {P : α → Prop} {a : α} (kept : P a) (done : ∀ b, x = .ok b → P b) :
    P (x.toOption.getD a) := by
  cases x with
  | error fault => exact kept
  | ok b => exact done b rfl

theorem map_getD_keeps {P : β → Prop} {f : α → β} (kept : P b) (done : ∀ a, x = .ok a → P (f a)) :
    P ((x.toOption.map f).getD b) := by
  cases x with
  | error fault => exact kept
  | ok a => exact done a rfl

/-- Invariant rule for a fallible loop: a completed loop keeps what every step keeps. -/
theorem foldlM_invariant {f : α → β → Except ε α} (Inv : α → Prop)
    (step : ∀ a b next, Inv a → f a b = .ok next → Inv next) {items : List β} {a last : α}
    (start : Inv a) (ran : items.foldlM f a = .ok last) : Inv last := by
  induction items generalizing a with
  | nil =>
    cases ran
    exact start
  | cons item rest ih =>
    rw [List.foldlM_cons] at ran
    obtain ⟨next, hstep, hrest⟩ := bind_eq_ok.mp ran
    exact ih (step a item next start hstep) hrest

variable {items : List α} {results : List β}

theorem mapM_forall₂ (ran : items.mapM f = .ok results) :
    List.Forall₂ (fun item result => f item = .ok result) items results := by
  induction items generalizing results with
  | nil =>
    cases ran
    exact .nil
  | cons item rest ih =>
    rw [List.mapM_cons] at ran
    obtain ⟨result, hitem, hrest⟩ := bind_eq_ok.mp ran
    obtain ⟨others, hothers, heq⟩ := bind_eq_ok.mp hrest
    cases heq
    exact .cons hitem (ih hothers)

theorem mapM_forall₂_some {f : α → Option β} (ran : items.mapM f = some results) :
    List.Forall₂ (fun a b => f a = some b) items results := by
  induction items generalizing results with
  | nil =>
    cases ran
    exact .nil
  | cons item rest ih =>
    rw [List.mapM_cons] at ran
    obtain ⟨result, hitem, hrest⟩ := Option.bind_eq_some_iff.1 ran
    obtain ⟨others, hothers, heq⟩ := Option.bind_eq_some_iff.1 hrest
    cases heq
    exact .cons hitem (ih hothers)

theorem exists_of_forall₂ {R : α → β → Prop} {left : List α} {right : List β}
    (pairs : List.Forall₂ R left right) {item : α} (hmem : item ∈ left) :
    ∃ result ∈ right, R item result := by
  induction pairs with
  | nil => cases hmem
  | cons hfirst _ ih =>
    rcases List.mem_cons.1 hmem with rfl | hmem
    · exact ⟨_, List.mem_cons_self, hfirst⟩
    · obtain ⟨result, hresult, hrel⟩ := ih hmem
      exact ⟨result, List.mem_cons_of_mem _ hresult, hrel⟩

theorem mapM_result (ran : items.mapM f = .ok results) {item : α} (hmem : item ∈ items) :
    ∃ result ∈ results, f item = .ok result :=
  exists_of_forall₂ (mapM_forall₂ ran) hmem

theorem mapM_source (ran : items.mapM f = .ok results) {result : β} (hmem : result ∈ results) :
    ∃ item ∈ items, f item = .ok result :=
  exists_of_forall₂ (mapM_forall₂ ran).flip hmem

theorem mapM_total (total : ∀ item ∈ items, ∃ result, f item = .ok result) :
    ∃ results, items.mapM f = .ok results := by
  induction items with
  | nil => exact ⟨[], rfl⟩
  | cons item rest ih =>
    obtain ⟨result, hitem⟩ := total item List.mem_cons_self
    obtain ⟨results, hrest⟩ := ih fun other hmem => total other (List.mem_cons_of_mem item hmem)
    refine ⟨result :: results, ?_⟩
    rw [List.mapM_cons, hitem, hrest]
    rfl

theorem mapM_eq_map {g : α → β} (known : ∀ item ∈ items, f item = .ok (g item)) :
    items.mapM f = .ok (items.map g) := by
  induction items with
  | nil => rfl
  | cons item rest ih =>
    rw [List.mapM_cons, known item List.mem_cons_self,
      ih fun other hmem => known other (List.mem_cons_of_mem item hmem)]
    rfl

end FondacoFormal.Library.Fallible
