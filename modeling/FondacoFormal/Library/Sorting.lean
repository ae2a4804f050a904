import Mathlib.Data.List.Permutation
import Mathlib.Data.List.Sort
import Mathlib.Order.Lattice

/-!
# Sorting by a comparison

What a library sort promises of its result depends on the comparison: on a list where
it is a weak order the result is sorted, on any other list it is only a permutation.
Where elements tie their order is left open.
-/

namespace FondacoFormal.Library

variable {α : Type} {less : α → α → Bool}

structure WeakOrderOn (less : α → α → Bool) (l : List α) : Prop where
  asymm : ∀ a ∈ l, ∀ b ∈ l, less a b = true → less b a = false
  trans : ∀ a ∈ l, ∀ b ∈ l, ∀ c ∈ l, less a b = false → less b c = false → less a c = false

def Tied (less : α → α → Bool) (a b : α) : Prop :=
  less a b = false ∧ less b a = false

/-- A sort: `sort.Sort` or `sort.Slice` with one comparison. -/
structure Sorter (less : α → α → Bool) where
  sort : List α → List α
  perm : ∀ l, (sort l).Perm l
  sorted : ∀ l, WeakOrderOn less l → (sort l).Pairwise fun a b => less b a = false

theorem WeakOrderOn.mono {l l' : List α} (order : WeakOrderOn less l) (hsub : ∀ a ∈ l', a ∈ l) :
    WeakOrderOn less l' where
  asymm a ha b hb := order.asymm a (hsub a ha) b (hsub b hb)
  trans a ha b hb c hc := order.trans a (hsub a ha) b (hsub b hb) c (hsub c hc)

theorem WeakOrderOn.pair (hasymm : ∀ a b, less a b = true → less b a = false) (a b : α) :
    WeakOrderOn less [a, b] where
  asymm x _ y _ := hasymm x y
  trans x hx y hy z hz hxy hyz := by
    have hirrefl (x : α) : less x x = false := by
      cases h : less x x with
      | false => rfl
      | true => exact h ▸ hasymm x x h
    simp only [List.mem_cons, List.not_mem_nil, or_false] at hx hy hz
    rcases hx with rfl | rfl <;> rcases hy with rfl | rfl <;> rcases hz with rfl | rfl <;>
      first | assumption | exact hirrefl _

/-! ## Comparing part by part -/

variable {β : Type}

theorem foldr_then_swap {f g : β → Ordering} (h : ∀ x, (f x).swap = g x) (l : List β) :
    ((l.map f).foldr Ordering.then .eq).swap = (l.map g).foldr Ordering.then .eq := by
  induction l with
  | nil => rfl
  | cons x xs ih => simp only [List.map_cons, List.foldr_cons, Ordering.swap_then, h, ih]

theorem zipWithAll_swap {f g : Option β → Option β → Ordering} (h : ∀ x y, (f x y).swap = g y x)
    (as bs : List β) :
    ((List.zipWithAll f as bs).foldr Ordering.then .eq).swap =
      (List.zipWithAll g bs as).foldr Ordering.then .eq := by
  induction as generalizing bs with
  | nil =>
    cases bs with
    | nil => rfl
    | cons b bs => exact foldr_then_swap (fun x => h none (some x)) (b :: bs)
  | cons a as ih =>
    cases bs with
    | nil => exact foldr_then_swap (fun x => h (some x) none) (a :: as)
    | cons b bs =>
      simp only [List.zipWithAll, List.foldr_cons, Ordering.swap_then, h, ih]

theorem zipWithAll_append {f : Option β → Option β → Ordering}
    (hself : ∀ x, f (some x) (some x) = .eq) (common as bs : List β) :
    (List.zipWithAll f (common ++ as) (common ++ bs)).foldr Ordering.then .eq =
      (List.zipWithAll f as bs).foldr Ordering.then .eq := by
  induction common with
  | nil => rfl
  | cons x common ih => simp [hself, ih]

/-! ## Insertion -/

variable {l : List α} {a b : α}

section Insertion

variable (first : α → α → Bool)

def insertBy (x : α) : List α → List α
  | [] => [x]
  | y :: ys => if first x y then x :: y :: ys else y :: insertBy x ys

def sortBy : List α → List α
  | [] => []
  | x :: xs => insertBy first x (sortBy xs)

theorem insertBy_perm (x : α) (l : List α) : (insertBy first x l).Perm (x :: l) := by
  induction l with
  | nil => exact .refl _
  | cons y ys ih =>
    unfold insertBy
    split
    · exact .refl _
    · exact (ih.cons y).trans (.swap x y ys)

theorem sortBy_perm (l : List α) : (sortBy first l).Perm l := by
  induction l with
  | nil => exact .refl _
  | cons x xs ih => exact (insertBy_perm first x _).trans (ih.cons x)

variable {first}

theorem WeakOrderOn.not_less (order : WeakOrderOn less l) (ha : a ∈ l) (hb : b ∈ l)
    (h : less b a = true ∨ less a b = false) : less a b = false := by
  rcases h with h | h
  · exact order.asymm b hb a ha h
  · exact h

variable (hfirst : ∀ a b, first a b = true → less a b = true ∨ less b a = false)

include hfirst

variable (hlast : ∀ a b, first a b = false → less b a = true ∨ less a b = false)

include hlast

theorem insertBy_sorted {x : α} (order : WeakOrderOn less (x :: l))
    (hl : l.Pairwise fun a b => less b a = false) :
    (insertBy first x l).Pairwise fun a b => less b a = false := by
  induction l with
  | nil => exact List.pairwise_singleton _ _
  | cons y ys ih =>
    obtain ⟨hy, hys⟩ := List.pairwise_cons.mp hl
    have hx : x ∈ x :: y :: ys := List.mem_cons_self
    have hmem : y ∈ x :: y :: ys := List.mem_cons_of_mem _ List.mem_cons_self
    unfold insertBy
    split
    · rename_i hxy
      have hle : less y x = false := order.not_less hmem hx (hfirst x y hxy)
      refine List.pairwise_cons.mpr ⟨?_, hl⟩
      intro z hz
      rcases List.mem_cons.mp hz with rfl | htail
      · exact hle
      · exact order.trans z (List.mem_cons_of_mem _ hz) y hmem x hx (hy z htail) hle
    · rename_i hxy
      have hrest : WeakOrderOn less (x :: ys) := by
        apply order.mono
        intro a ha
        rcases List.mem_cons.mp ha with rfl | ha
        · exact hx
        · exact List.mem_cons_of_mem _ (List.mem_cons_of_mem _ ha)
      refine List.pairwise_cons.mpr ⟨?_, ih hrest hys⟩
      intro z hz
      rcases List.mem_cons.mp ((insertBy_perm first x ys).mem_iff.mp hz) with rfl | hz
      · exact order.not_less hx hmem (hlast _ _ (by simpa using hxy))
      · exact hy z hz

theorem sortBy_sorted (order : WeakOrderOn less l) :
    (sortBy first l).Pairwise fun a b => less b a = false := by
  induction l with
  | nil => exact .nil
  | cons x xs ih =>
    have hsorted := ih (order.mono fun a ha => List.mem_cons_of_mem _ ha)
    apply insertBy_sorted hfirst hlast _ hsorted
    apply order.mono
    intro a ha
    rcases List.mem_cons.mp ha with rfl | ha
    · exact List.mem_cons_self
    · exact List.mem_cons_of_mem _ ((sortBy_perm first xs).mem_iff.mp ha)

end Insertion

def Sorter.stable (less : α → α → Bool) : Sorter less where
  sort := sortBy fun a b => !less b a
  perm := sortBy_perm _
  sorted _ := sortBy_sorted (fun _ _ h => .inr (by simpa using h)) fun _ _ h =>
    .inl (by simpa using h)

def Sorter.turning (less : α → α → Bool) : Sorter less where
  sort := sortBy less
  perm := sortBy_perm _
  sorted _ := sortBy_sorted (fun _ _ h => .inl h) fun _ _ h => .inr h

open scoped Classical in
noncomputable def Sorter.careless (l result : List α) (hperm : result.Perm l)
    (hdisorder : ¬ WeakOrderOn less l) : Sorter less where
  sort l' := if l' = l then result else (Sorter.stable less).sort l'
  perm l' := by
    split
    · rename_i h
      exact h ▸ hperm
    · exact (Sorter.stable less).perm l'
  sorted l' order := by
    split
    · rename_i h
      exact absurd (h ▸ order) hdisorder
    · exact (Sorter.stable less).sorted l' order

theorem Sorter.careless_sort (l result : List α) (hperm : result.Perm l)
    (hdisorder : ¬ WeakOrderOn less l) :
    (Sorter.careless l result hperm hdisorder).sort l = result :=
  if_pos rfl

theorem Sorter.pair (sorter : Sorter less) (hasymm : ∀ a b, less a b = true → less b a = false)
    (a b : α) :
    sorter.sort [a, b] = [a, b] ∧ less b a = false ∨
      sorter.sort [a, b] = [b, a] ∧ less a b = false := by
  have hsorted := sorter.sorted [a, b] (.pair hasymm a b)
  rcases List.perm_pair.mp (sorter.perm [a, b]) with h | h
  · rw [h] at hsorted ⊢
    exact .inl ⟨rfl, by simpa using hsorted⟩
  · rw [h] at hsorted ⊢
    exact .inr ⟨rfl, by simpa using hsorted⟩

/-! ## What sorting determines -/

def rank (less : α → α → Bool) (l : List α) (x : α) : Nat :=
  l.countP fun y => less y x

section

variable (order : WeakOrderOn less l)

include order

theorem WeakOrderOn.irrefl {a : α} (ha : a ∈ l) : less a a = false := by
  cases h : less a a with
  | false => rfl
  | true => exact h ▸ order.asymm a ha a ha h

/-- What comes before an element comes before every element that is not in front of it. -/
theorem WeakOrderOn.less_of_less {a b y : α} (ha : a ∈ l) (hb : b ∈ l) (hy : y ∈ l)
    (h : less b a = false) (hya : less y a = true) : less y b = true := by
  cases hyb : less y b with
  | true => rfl
  | false =>
    rw [order.trans y hy b hb a ha hyb h] at hya
    cases hya

theorem WeakOrderOn.rank_le (ha : a ∈ l) (hb : b ∈ l) (h : less b a = false) :
    rank less l a ≤ rank less l b :=
  List.countP_mono_left fun _ hy => order.less_of_less ha hb hy h

theorem WeakOrderOn.rank_lt (ha : a ∈ l) (hb : b ∈ l) (h : less a b = true) :
    rank less l a < rank less l b := by
  have hba : less b a = false := order.asymm a ha b hb h
  have haa : less a a = false := order.irrefl ha
  obtain ⟨before, after, hl⟩ := List.append_of_mem ha
  have hmono (part : List α) (hpart : ∀ y ∈ part, y ∈ l) :
      part.countP (less · a) ≤ part.countP (less · b) :=
    List.countP_mono_left fun y hy => order.less_of_less ha hb (hpart y hy) hba
  have hbefore := hmono before (by intro y hy; rw [hl]; simp [hy])
  have hafter := hmono after (by intro y hy; rw [hl]; simp [hy])
  rw [rank, rank, hl, List.countP_append, List.countP_append, List.countP_cons, List.countP_cons,
    haa, h]
  simp only [Bool.false_eq_true, if_false, if_true]
  omega

theorem WeakOrderOn.tied_of_rank (ha : a ∈ l) (hb : b ∈ l) (h : rank less l a = rank less l b) :
    Tied less a b := by
  constructor
  · cases hab : less a b with
    | false => rfl
    | true => exact absurd (order.rank_lt ha hb hab) (by omega)
  · cases hba : less b a with
    | false => rfl
    | true => exact absurd (order.rank_lt hb ha hba) (by omega)

end

theorem WeakOrderOn.sorted_tied {l l₁ l₂ : List α} (order : WeakOrderOn less l)
    (hperm₁ : l₁.Perm l) (hperm₂ : l₂.Perm l) (h₁ : l₁.Pairwise fun a b => less b a = false)
    (h₂ : l₂.Pairwise fun a b => less b a = false) : List.Forall₂ (Tied less) l₁ l₂ := by
  have hranks {l' : List α} (hperm : l'.Perm l) (h : l'.Pairwise fun a b => less b a = false) :
      (l'.map (rank less l)).Pairwise (· ≤ ·) := by
    rw [List.pairwise_map]
    refine h.imp_of_mem ?_
    intro a b ha hb hba
    exact order.rank_le (hperm.mem_iff.mp ha) (hperm.mem_iff.mp hb) hba
  have heq : l₁.map (rank less l) = l₂.map (rank less l) :=
    ((hperm₁.trans hperm₂.symm).map _).eq_of_pairwise' (hranks hperm₁ h₁) (hranks hperm₂ h₂)
  have hforall : List.Forall₂ (fun a b => rank less l a = rank less l b) l₁ l₂ := by
    rw [← List.forall₂_map_left_iff (R := fun n b => n = rank less l b),
      ← List.forall₂_map_right_iff (R := fun n m => n = m), List.forall₂_eq_eq_eq]
    exact heq
  obtain ⟨hlength, hranked⟩ := List.forall₂_iff_zip.mp hforall
  refine List.forall₂_iff_zip.mpr ⟨hlength, ?_⟩
  intro a b hab
  obtain ⟨ha, hb⟩ := List.of_mem_zip hab
  exact order.tied_of_rank (hperm₁.mem_iff.mp ha) (hperm₂.mem_iff.mp hb) (hranked hab)

/-! ## The last element -/

theorem Sorter.last_greatest (sorter : Sorter less) (order : WeakOrderOn less l) {last : α}
    (hlast : (sorter.sort l).getLast? = some last) : last ∈ l ∧ ∀ x ∈ l, less last x = false := by
  obtain ⟨front, hfront⟩ := List.getLast?_eq_some_iff.1 hlast
  have hmem {x : α} : x ∈ l ↔ x ∈ front ++ [last] := by
    rw [← hfront, (sorter.perm l).mem_iff]
  have hsorted := sorter.sorted l order
  rw [hfront] at hsorted
  have hl : last ∈ l := hmem.2 (by simp)
  refine ⟨hl, fun x hx => ?_⟩
  rcases List.mem_append.1 (hmem.1 hx) with hx | hx
  · exact (List.pairwise_append.1 hsorted).2.2 x hx last (by simp)
  · rw [List.mem_singleton.1 hx]
    exact order.irrefl hl

/-- If every sort puts a greatest element last, the comparison is an order: it may put any element
last otherwise. -/
theorem WeakOrderOn.of_last_greatest
    (hgreatest : ∀ sorter : Sorter less, ∀ last, (sorter.sort l).getLast? = some last →
      ∀ x ∈ l, less last x = false) : WeakOrderOn less l := by
  classical
  by_contra hdisorder
  apply hdisorder
  have hnever : ∀ a ∈ l, ∀ b ∈ l, less a b = false := by
    intro a ha b hb
    have hperm : (l.erase a ++ [a]).Perm l :=
      (List.perm_append_singleton a _).trans (List.perm_cons_erase ha).symm
    refine hgreatest (.careless l _ hperm hdisorder) a ?_ b hb
    rw [Sorter.careless_sort]
    simp
  exact ⟨fun a ha b hb _ => hnever b hb a ha, fun a ha b _ c hc _ _ => hnever a ha c hc⟩

end FondacoFormal.Library
