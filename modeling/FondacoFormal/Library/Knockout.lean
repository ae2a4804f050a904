import FondacoFormal.Library.Sorting
import Mathlib.Data.List.Induction

/-!
# The greatest element by repeated comparison

A loop that keeps the greatest element so far compares each element with one other only.
-/

namespace FondacoFormal.Library

variable {α : Type} {less beats : α → α → Bool}

def challenge (beats : α → α → Bool) (current : Option α) (x : α) : Option α :=
  match current with
  | none => some x
  | some c => if beats x c then some x else some c

def champion (beats : α → α → Bool) (l : List α) : Option α :=
  l.foldl (challenge beats) none

structure Judges (less beats : α → α → Bool) : Prop where
  greater : ∀ x c, less c x = true → beats x c = true
  smaller : ∀ x c, less x c = true → beats x c = false

def TopTied (less : α → α → Bool) (l : List α) : Prop :=
  ∃ top : α → Prop, (∃ x ∈ l, top x) ∧
    (∀ x ∈ l, ∀ y ∈ l, top x → top y → Tied less x y) ∧
    ∀ x ∈ l, ∀ y ∈ l, top x → ¬ top y → less y x = true

theorem champion_append (l : List α) (x : α) :
    champion beats (l ++ [x]) = challenge beats (champion beats l) x := by
  rw [champion, List.foldl_append]
  rfl

variable {l : List α}

theorem champion_cases {x y : α} (h : champion beats (l ++ [x]) = some y) :
    y = x ∨ champion beats l = some y := by
  rw [champion_append] at h
  cases hl : champion beats l with
  | none =>
    rw [hl] at h
    exact .inl (Option.some.inj h).symm
  | some c =>
    simp only [hl, challenge] at h
    split at h
    · exact .inl (Option.some.inj h).symm
    · exact .inr h

theorem champion_mem {x : α} (h : champion beats l = some x) : x ∈ l := by
  induction l using List.reverseRecOn with
  | nil => cases h
  | append_singleton l y ih =>
    rcases champion_cases h with rfl | h
    · exact List.mem_append_right _ List.mem_cons_self
    · exact List.mem_append_left _ (ih h)

theorem exists_champion (beats : α → α → Bool) (hl : l ≠ []) : ∃ x, champion beats l = some x := by
  induction l using List.reverseRecOn with
  | nil => exact absurd rfl hl
  | append_singleton l y _ =>
    rw [champion_append]
    cases champion beats l with
    | none => exact ⟨y, rfl⟩
    | some c =>
      by_cases h : beats y c = true
      · exact ⟨y, by simp [challenge, h]⟩
      · exact ⟨c, by simp [challenge, h]⟩

theorem champion_top {l l' : List α} {top : α → Prop} (judges : Judges less beats)
    (habove : ∀ x ∈ l, ∀ y ∈ l, top x → ¬ top y → less y x = true) (hmem : ∀ x ∈ l', x ∈ l)
    (htop : ∃ x ∈ l', top x) {x : α} (h : champion beats l' = some x) : top x := by
  induction l' using List.reverseRecOn generalizing x with
  | nil =>
    obtain ⟨_, hnone, _⟩ := htop
    cases hnone
  | append_singleton l' y ih =>
    have hrest : ∀ x ∈ l', x ∈ l := fun x hx => hmem x (List.mem_append_left _ hx)
    have hy : y ∈ l := hmem y (List.mem_append_right _ List.mem_cons_self)
    rw [champion_append] at h
    cases hc : champion beats l' with
    | none =>
      rw [hc] at h
      obtain rfl : l' = [] := by
        by_contra hne
        obtain ⟨z, hz⟩ := exists_champion beats hne
        rw [hz] at hc
        cases hc
      obtain ⟨z, hz, htopz⟩ := htop
      simp only [List.nil_append, List.mem_singleton] at hz
      rw [← Option.some.inj h, ← hz]
      exact htopz
    | some c =>
      have hcl : c ∈ l := hrest c (champion_mem hc)
      simp only [hc, challenge] at h
      by_cases hold : ∃ z ∈ l', top z
      · have htopc : top c := ih hrest hold hc
        split at h
        · rename_i hbeats
          obtain rfl := Option.some.inj h
          by_contra hlow
          have hless := habove c hcl y hy htopc hlow
          rw [judges.smaller y c hless] at hbeats
          cases hbeats
        · exact Option.some.inj h ▸ htopc
      · have htopy : top y := by
          obtain ⟨z, hz, htopz⟩ := htop
          rcases List.mem_append.mp hz with hz | hz
          · exact absurd ⟨z, hz, htopz⟩ hold
          · exact List.mem_singleton.mp hz ▸ htopz
        have hlow : ¬ top c := fun htopc => hold ⟨c, champion_mem hc, htopc⟩
        rw [judges.greater y c (habove y hy c hcl htopy hlow), if_pos rfl] at h
        exact Option.some.inj h ▸ htopy

theorem TopTied.champions {l₁ l₂ : List α} (settled : TopTied less l) (judges : Judges less beats)
    (h₁ : l₁.Perm l) (h₂ : l₂.Perm l) :
    ∃ x₁ x₂, champion beats l₁ = some x₁ ∧ champion beats l₂ = some x₂ ∧ Tied less x₁ x₂ := by
  obtain ⟨top, ⟨t, ht, htop⟩, htied, habove⟩ := settled
  have hchampion {l' : List α} (h : l'.Perm l) :
      ∃ x ∈ l, top x ∧ champion beats l' = some x := by
    obtain ⟨x, hx⟩ := exists_champion beats (List.ne_nil_of_mem (h.mem_iff.mpr ht))
    refine ⟨x, h.mem_iff.mp (champion_mem hx), ?_, hx⟩
    exact champion_top judges habove (fun _ => h.mem_iff.mp) ⟨t, h.mem_iff.mpr ht, htop⟩ hx
  obtain ⟨x₁, hx₁, htop₁, hchampion₁⟩ := hchampion h₁
  obtain ⟨x₂, hx₂, htop₂, hchampion₂⟩ := hchampion h₂
  exact ⟨x₁, x₂, hchampion₁, hchampion₂, htied x₁ hx₁ x₂ hx₂ htop₁ htop₂⟩

theorem WeakOrderOn.topTied (order : WeakOrderOn less l) (hl : l ≠ []) : TopTied less l := by
  refine ⟨fun x => ∀ y ∈ l, less x y = false, ?_, ?_, ?_⟩
  · cases hlast : ((Sorter.stable less).sort l).getLast? with
    | none =>
      have hperm := (Sorter.stable less).perm l
      rw [List.getLast?_eq_none_iff.mp hlast] at hperm
      exact absurd hperm.symm.eq_nil hl
    | some x => exact ⟨x, (Sorter.stable less).last_greatest order hlast⟩
  · exact fun x hx y hy htop hlow => ⟨htop y hy, hlow x hx⟩
  · intro x hx y hy htop hlow
    simp only [not_forall, Bool.not_eq_false] at hlow
    obtain ⟨z, hz, hyz⟩ := hlow
    exact order.less_of_less hz hx hy (htop z hz) hyz

/-! ## Every order -/

def atLeast (less : α → α → Bool) (x c : α) : Bool :=
  !less x c

def Wins (less : α → α → Bool) (l : List α) (x : α) : Prop :=
  ∃ l', l'.Perm l ∧ champion (atLeast less) l' = some x

theorem Wins.perm {l l' : List α} (h : l.Perm l') {x : α} (wins : Wins less l x) :
    Wins less l' x := by
  obtain ⟨order, hperm, hchampion⟩ := wins
  exact ⟨order, hperm.trans h, hchampion⟩

theorem Wins.challenger {x c : α} (wins : Wins less l c) (h : less x c = false) :
    Wins less (x :: l) x := by
  obtain ⟨order, hperm, hchampion⟩ := wins
  refine ⟨order ++ [x], (List.perm_append_singleton x order).trans (hperm.cons x), ?_⟩
  simp [champion_append, hchampion, challenge, atLeast, h]

theorem champion_split {c : α} (h : champion beats l = some c) :
    ∃ before after, l = before ++ c :: after ∧
      (∀ d, champion beats before = some d → beats c d = true) ∧
      after.foldl (challenge beats) (some c) = some c := by
  induction l using List.reverseRecOn with
  | nil => cases h
  | append_singleton l y ih =>
    rw [champion_append] at h
    cases hd : champion beats l with
    | none =>
      rw [hd] at h
      obtain rfl := Option.some.inj h
      refine ⟨l, [], rfl, ?_, rfl⟩
      intro d hd'
      rw [hd] at hd'
      cases hd'
    | some d =>
      simp only [hd, challenge] at h
      split at h
      · rename_i hbeats
        obtain rfl := Option.some.inj h
        refine ⟨l, [], rfl, ?_, rfl⟩
        intro d' hd'
        rw [hd] at hd'
        exact Option.some.inj hd' ▸ hbeats
      · rename_i hkeeps
        obtain rfl := Option.some.inj h
        obtain ⟨before, after, hsplit, htakes, hstays⟩ := ih hd
        refine ⟨before, after ++ [y], by simp [hsplit], htakes, ?_⟩
        rw [List.foldl_append, hstays]
        simp [challenge, hkeeps]

theorem Wins.absorb {x c : α} (wins : Wins less l c) (h : less c x = false) :
    Wins less (x :: l) c := by
  obtain ⟨order, hperm, hchampion⟩ := wins
  obtain ⟨before, after, rfl, htakes, hstays⟩ := champion_split hchampion
  refine ⟨before ++ x :: c :: after, List.perm_middle.trans (hperm.cons x), ?_⟩
  have htaken : challenge (atLeast less) (champion (atLeast less) (before ++ [x])) c = some c := by
    cases hd : champion (atLeast less) (before ++ [x]) with
    | none => rfl
    | some d =>
      have hbeats : atLeast less c d = true := by
        rcases champion_cases hd with rfl | hd
        · simp [atLeast, h]
        · exact htakes d hd
      simp [challenge, hbeats]
  rw [champion_append] at htaken
  rw [champion, List.foldl_append, List.foldl_cons, List.foldl_cons]
  exact (congrArg (after.foldl _) htaken).trans hstays

/-- If no two orders leave elements that differ by more than a tie, the list has a top. -/
theorem topTied_of_wins (hasymm : ∀ a b, less a b = true → less b a = false) (hl : l ≠ [])
    (htied : ∀ x y, Wins less l x → Wins less l y → Tied less x y) : TopTied less l := by
  classical
  refine ⟨Wins less l, ?_, fun x _ y _ => htied x y, ?_⟩
  · obtain ⟨x, hx⟩ := exists_champion (atLeast less) hl
    exact ⟨x, champion_mem hx, l, .refl l, hx⟩
  · intro x hx y hy hwins hloses
    by_contra hless
    rw [Bool.not_eq_true] at hless
    have hxy : x ≠ y := fun h => hloses (h ▸ hwins)
    -- without `y` the element `x` can still win, so `y` can win after it
    have hsplit : l.Perm (y :: l.erase y) := List.perm_cons_erase hy
    have hmem : x ∈ l.erase y := (List.mem_erase_of_ne hxy).mpr hx
    suffices hwithout : Wins less (l.erase y) x from
      hloses ((hwithout.challenger hless).perm hsplit.symm)
    have hrest : (l.erase y).Perm (x :: (l.erase y).erase x) := List.perm_cons_erase hmem
    refine Wins.perm hrest.symm ?_
    by_cases hempty : (l.erase y).erase x = []
    · exact ⟨[x], by rw [hempty], rfl⟩
    · obtain ⟨z, hz⟩ := exists_champion (atLeast less) hempty
      have hwinsz : Wins less ((l.erase y).erase x) z := ⟨_, .refl _, hz⟩
      cases hxz : less x z with
      | false => exact hwinsz.challenger hxz
      | true =>
        have hbehind := (hwinsz.absorb (hasymm x z hxz)).perm hrest.symm
        cases hyz : less y z with
        | false => exact absurd ((hbehind.challenger hyz).perm hsplit.symm) hloses
        | true =>
          have hahead := (hbehind.absorb (hasymm y z hyz)).perm hsplit.symm
          have := (htied x z hwins hahead).1
          rw [hxz] at this
          cases this

theorem exists_perm_filter_map {β : Type} {f : α → β} {p : β → Bool} {r : List β}
    (h : r.Perm ((l.map f).filter p)) : ∃ l' : List α, l'.Perm l ∧ (l'.map f).filter p = r := by
  rw [List.filter_map] at h
  have hcomp : Relation.Comp (fun r l₁ => r = List.map f l₁) List.Perm r (l.filter (p ∘ f)) := by
    rw [List.eq_map_comp_perm]
    exact h
  obtain ⟨l₁, rfl, hperm⟩ := hcomp
  have hkept : l₁.filter (p ∘ f) = l₁ := by
    apply List.filter_eq_self.mpr
    intro x hx
    exact (List.mem_filter.mp (hperm.mem_iff.mp hx)).2
  have hdropped : (l.filter fun x => !(p ∘ f) x).filter (p ∘ f) = [] := by
    simp [List.filter_filter]
  refine ⟨l₁ ++ l.filter fun x => !(p ∘ f) x, ?_, ?_⟩
  · exact (hperm.append_right _).trans (List.filter_append_perm (p ∘ f) l)
  · rw [List.filter_map, List.filter_append, hkept, hdropped, List.append_nil]

end FondacoFormal.Library
