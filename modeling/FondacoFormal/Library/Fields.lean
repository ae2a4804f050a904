import Mathlib.Data.List.Basic
import Mathlib.Order.Basic
import Mathlib.Order.Lattice

/-!
# Maps as sorted lists of fields

A finite map as the list of its fields in the order of their keys, so that two maps with the
same fields are the same list.
-/

namespace FondacoFormal.Library.Fields

variable {κ α : Type} [LinearOrder κ]

/-- `fields[key]`. -/
def find (key : κ) (fields : List (κ × α)) : Option α :=
  fields.lookup key

/-- `fields[key] = value`. -/
def set (key : κ) (value : α) : List (κ × α) → List (κ × α)
  | [] => [(key, value)]
  | field :: rest =>
    if key < field.1 then (key, value) :: field :: rest
    else if key = field.1 then (key, value) :: rest
    else field :: set key value rest

/-- `delete(fields, key)`. -/
def erase (key : κ) (fields : List (κ × α)) : List (κ × α) :=
  fields.filter fun field => field.1 ≠ key

def ofList (pairs : List (κ × α)) : List (κ × α) :=
  pairs.foldl (fun fields pair => set pair.1 pair.2 fields) []

def complete (fields more : List (κ × α)) : List (κ × α) :=
  more.foldl
    (fun taken field =>
      if (taken.lookup field.1).isSome then taken else set field.1 field.2 taken)
    fields

def Sorted (fields : List (κ × α)) : Prop :=
  fields.Pairwise fun a b => a.1 < b.1

/-! ## Looking up -/

theorem lookup_cons (key : κ) (field : κ × α) (rest : List (κ × α)) :
    (field :: rest).lookup key = if key = field.1 then some field.2 else rest.lookup key := by
  obtain ⟨other, value⟩ := field
  by_cases heq : key = other
  · simp [heq]
  · have hne : (key == other) = false := by simpa using heq
    simp [List.lookup_cons, heq, hne]

theorem lookup_set (key other : κ) (value : α) (fields : List (κ × α)) :
    (set key value fields).lookup other =
      if other = key then some value else fields.lookup other := by
  induction fields with
  | nil => simp [set, lookup_cons]
  | cons field rest ih =>
    rw [set]
    split
    · rw [lookup_cons]
    · split
      · next heq =>
          subst heq
          rw [lookup_cons, lookup_cons]
          split <;> rfl
      · next hne =>
          rw [lookup_cons, lookup_cons, ih]
          by_cases hother : other = field.1
          · rw [if_pos hother, if_pos hother, if_neg fun heq => hne (heq.symm.trans hother)]
          · rw [if_neg hother, if_neg hother]

theorem lookup_set_self (key : κ) (value : α) (fields : List (κ × α)) :
    (set key value fields).lookup key = some value := by
  rw [lookup_set, if_pos rfl]

theorem lookup_set_of_ne {key other : κ} (hne : other ≠ key) (value : α) (fields : List (κ × α)) :
    (set key value fields).lookup other = fields.lookup other := by
  rw [lookup_set, if_neg hne]

theorem lookup_erase (key other : κ) (fields : List (κ × α)) :
    (erase key fields).lookup other = if other = key then none else fields.lookup other := by
  induction fields with
  | nil => simp [erase]
  | cons field rest ih =>
    rw [erase] at ih ⊢
    by_cases heq : field.1 = key
    · rw [List.filter_cons_of_neg (by simpa using heq), ih, lookup_cons]
      by_cases hother : other = key
      · rw [if_pos hother, if_pos hother]
      · rw [if_neg hother, if_neg hother, if_neg fun h => hother (h.trans heq)]
    · rw [List.filter_cons_of_pos (by simpa using heq), lookup_cons, lookup_cons, ih]
      by_cases hother : other = field.1
      · rw [if_pos hother, if_pos hother, if_neg fun h => heq (hother.symm.trans h)]
      · rw [if_neg hother, if_neg hother]

theorem complete_cons (fields : List (κ × α)) (field : κ × α) (rest : List (κ × α)) :
    complete fields (field :: rest) =
      complete (if (fields.lookup field.1).isSome then fields else set field.1 field.2 fields)
        rest :=
  rfl

theorem lookup_complete (fields more : List (κ × α)) (key : κ) :
    (complete fields more).lookup key = (fields.lookup key).or (more.lookup key) := by
  induction more generalizing fields with
  | nil => simp [complete]
  | cons field rest ih =>
    rw [complete_cons, ih, lookup_cons]
    by_cases heq : key = field.1
    · subst heq
      cases hlookup : fields.lookup field.1 with
      | none => simp [lookup_set_self]
      | some value => simp [hlookup]
    · rw [if_neg heq]
      split
      · rfl
      · rw [lookup_set_of_ne heq]

theorem lookup_map {β : Type} (change : κ → α → β) (fields : List (κ × α)) (key : κ) :
    (fields.map fun field => (field.1, change field.1 field.2)).lookup key =
      (fields.lookup key).map (change key) := by
  induction fields with
  | nil => rfl
  | cons field rest ih =>
    rw [List.map_cons, lookup_cons, lookup_cons, ih]
    by_cases heq : key = field.1
    · rw [if_pos heq, if_pos heq, heq]
      rfl
    · rw [if_neg heq, if_neg heq]

/-! ## Order -/

variable {fields : List (κ × α)} {key : κ} {field : κ × α} {value : α}

theorem mem_set (hmem : field ∈ set key value fields) : field = (key, value) ∨ field ∈ fields := by
  induction fields with
  | nil => exact .inl (List.mem_singleton.1 hmem)
  | cons first rest ih =>
    rw [set] at hmem
    split at hmem
    · exact List.mem_cons.1 hmem
    · split at hmem
      · exact (List.mem_cons.1 hmem).imp_right (List.mem_cons_of_mem first)
      · rcases List.mem_cons.1 hmem with rfl | hrest
        · exact .inr List.mem_cons_self
        · exact (ih hrest).imp_right (List.mem_cons_of_mem first)

theorem sorted_set (hsorted : Sorted fields) (key : κ) (value : α) :
    Sorted (set key value fields) := by
  induction fields with
  | nil => exact List.pairwise_singleton _ _
  | cons first rest ih =>
    obtain ⟨hfirst, hrest⟩ := List.pairwise_cons.1 hsorted
    rw [set]
    split
    · next hlt =>
        refine List.pairwise_cons.2 ⟨?_, hsorted⟩
        intro field hmem
        rcases List.mem_cons.1 hmem with rfl | hmem
        · exact hlt
        · exact hlt.trans (hfirst field hmem)
    · next hge =>
        split
        · next heq => exact List.pairwise_cons.2 ⟨heq ▸ hfirst, hrest⟩
        · next hne =>
            refine List.pairwise_cons.2 ⟨?_, ih hrest⟩
            intro field hmem
            rcases mem_set hmem with rfl | hmem
            · exact lt_of_le_of_ne (not_lt.1 hge) (Ne.symm hne)
            · exact hfirst field hmem

theorem sorted_erase (hsorted : Sorted fields) (key : κ) : Sorted (erase key fields) :=
  hsorted.sublist List.filter_sublist

theorem sorted_ofList (pairs : List (κ × α)) : Sorted (ofList pairs) :=
  List.foldlRecOn (motive := Sorted) pairs _ List.Pairwise.nil fun _ hsorted pair _ =>
    sorted_set hsorted pair.1 pair.2

theorem mem_ofList {pairs : List (κ × α)} (hmem : field ∈ ofList pairs) : field ∈ pairs := by
  refine List.foldlRecOn (motive := fun fields => field ∈ fields → field ∈ pairs) pairs _
    (fun hnone => absurd hnone List.not_mem_nil) ?_ hmem
  intro fields ih pair hpair hset
  rcases mem_set hset with rfl | hold
  · exact hpair
  · exact ih hold

theorem sorted_complete (hsorted : Sorted fields) (more : List (κ × α)) :
    Sorted (complete fields more) := by
  induction more generalizing fields with
  | nil => exact hsorted
  | cons field rest ih =>
    rw [complete_cons]
    split
    · exact ih hsorted
    · exact ih (sorted_set hsorted field.1 field.2)

theorem mem_complete {fields more : List (κ × α)} (hmem : field ∈ complete fields more) :
    field ∈ fields ∨ field ∈ more := by
  induction more generalizing fields with
  | nil => exact .inl hmem
  | cons first rest ih =>
    rw [complete_cons] at hmem
    rcases ih hmem with h | h
    · split at h
      · exact .inl h
      · rcases mem_set h with rfl | h
        · exact .inr List.mem_cons_self
        · exact .inl h
    · exact .inr (List.mem_cons_of_mem first h)

theorem sorted_map {β : Type} (change : κ → α → β) (hsorted : Sorted fields) :
    Sorted (fields.map fun field => (field.1, change field.1 field.2)) :=
  List.Pairwise.map _ (fun _ _ h => h) hsorted

theorem set_last (hlast : ∀ field ∈ fields, field.1 < key) (value : α) :
    set key value fields = fields ++ [(key, value)] := by
  induction fields with
  | nil => rfl
  | cons first rest ih =>
    have hfirst := hlast first List.mem_cons_self
    rw [set, if_neg hfirst.not_gt, if_neg hfirst.ne', List.cons_append,
      ih fun field hmem => hlast field (List.mem_cons_of_mem first hmem)]

theorem ofList_of_sorted (hsorted : Sorted fields) : ofList fields = fields := by
  have hfold : ∀ (more done : List (κ × α)), Sorted (done ++ more) →
      more.foldl (fun fields pair => set pair.1 pair.2 fields) done = done ++ more := by
    intro more
    induction more with
    | nil => intro done _; simp
    | cons pair rest ih =>
      intro done h
      have hlast : ∀ field ∈ done, field.1 < pair.1 := fun field hmem =>
        (List.pairwise_append.1 h).2.2 field hmem pair List.mem_cons_self
      rw [List.foldl_cons, set_last hlast, ih _ (by simpa using h), List.append_assoc,
        List.singleton_append]
  exact hfold fields [] hsorted

theorem mem_of_lookup (hlookup : fields.lookup key = some value) : (key, value) ∈ fields := by
  induction fields with
  | nil => cases hlookup
  | cons first rest ih =>
    rw [lookup_cons] at hlookup
    split at hlookup
    · next heq =>
        cases hlookup
        rw [heq]
        exact List.mem_cons_self
    · exact List.mem_cons_of_mem first (ih hlookup)

theorem lookup_of_mem (hsorted : Sorted fields) (hmem : (key, value) ∈ fields) :
    fields.lookup key = some value := by
  induction fields with
  | nil => cases hmem
  | cons first rest ih =>
    obtain ⟨hfirst, hrest⟩ := List.pairwise_cons.1 hsorted
    rw [lookup_cons]
    rcases List.mem_cons.1 hmem with rfl | hmem
    · rw [if_pos rfl]
    · rw [if_neg (hfirst _ hmem).ne', ih hrest hmem]

theorem lookup_isSome_iff : (fields.lookup key).isSome = true ↔ key ∈ fields.map Prod.fst := by
  induction fields with
  | nil => simp
  | cons first rest ih =>
    rw [lookup_cons, List.map_cons, List.mem_cons]
    by_cases heq : key = first.1
    · simp [heq]
    · rw [if_neg heq, ih]
      simp [heq]

end FondacoFormal.Library.Fields
