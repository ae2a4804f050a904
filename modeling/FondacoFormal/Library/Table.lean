import Mathlib.Data.List.AList

/-!
# Keyed tables

A table is a finite map from its primary key to the remaining columns of the row. Two rows with
one key cannot be built, so a unique constraint on the key never has to be stated again.
-/

namespace FondacoFormal.Library

/-- Rows of type `ν` under the primary key `κ`. -/
abbrev Table (κ ν : Type) : Type := AList fun _ : κ => ν

namespace Table

variable {κ ν : Type} [DecidableEq κ]

def find (t : Table κ ν) (k : κ) : Option ν :=
  AList.lookup k t

def put (t : Table κ ν) (k : κ) (v : ν) : Table κ ν :=
  AList.insert k v t

/-- `INSERT .. ON CONFLICT DO NOTHING`. -/
def insertNew (t : Table κ ν) (k : κ) (v : ν) : Table κ ν :=
  match t.find k with
  | none => t.put k v
  | some _ => t

/-- `INSERT .. ON CONFLICT DO UPDATE`: write `fresh`, or change the row that is there. -/
def upsert (t : Table κ ν) (k : κ) (fresh : ν) (change : ν → ν) : Table κ ν :=
  match t.find k with
  | none => t.put k fresh
  | some v => t.put k (change v)

/-- `UPDATE .. WHERE key`: change the row if there is one. -/
def modify (t : Table κ ν) (k : κ) (change : ν → ν) : Table κ ν :=
  match t.find k with
  | none => t
  | some v => t.put k (change v)

def erase (t : Table κ ν) (k : κ) : Table κ ν :=
  AList.erase k t

/-- `DELETE`: keep the rows that pass the test. -/
def keep (t : Table κ ν) (test : κ → ν → Bool) : Table κ ν where
  entries := t.entries.filter fun row => test row.1 row.2
  nodupKeys := t.nodupKeys.sublist List.filter_sublist

def rows (t : Table κ ν) : List (κ × ν) :=
  t.entries.map fun row => (row.1, row.2)

@[simp] theorem find_empty (k : κ) : find (∅ : Table κ ν) k = none :=
  rfl

@[simp] theorem find_put_self (t : Table κ ν) (k : κ) (v : ν) :
    (t.put k v).find k = some v :=
  AList.lookup_insert t

variable {k other : κ}

theorem find_put_of_ne (t : Table κ ν) (v : ν) (hne : other ≠ k) :
    (t.put k v).find other = t.find other :=
  AList.lookup_insert_ne hne

theorem find_put (t : Table κ ν) (k other : κ) (v : ν) :
    (t.put k v).find other = if other = k then some v else t.find other := by
  by_cases heq : other = k
  · subst heq
    simp
  · rw [find_put_of_ne t v heq, if_neg heq]

theorem insertNew_of_some {t : Table κ ν} {k : κ} {old : ν} (hfind : t.find k = some old) (v : ν) :
    t.insertNew k v = t := by
  unfold insertNew
  rw [hfind]

theorem insertNew_of_none {t : Table κ ν} {k : κ} (hfind : t.find k = none) (v : ν) :
    t.insertNew k v = t.put k v := by
  unfold insertNew
  rw [hfind]

@[simp] theorem find_insertNew_self (t : Table κ ν) (k : κ) (v : ν) :
    (t.insertNew k v).find k = some ((t.find k).getD v) := by
  unfold insertNew
  cases hfind : t.find k <;> simp [hfind]

theorem find_insertNew_of_ne (t : Table κ ν) (v : ν) (hne : other ≠ k) :
    (t.insertNew k v).find other = t.find other := by
  unfold insertNew
  cases t.find k
  · exact find_put_of_ne t v hne
  · rfl

@[simp] theorem find_upsert_self (t : Table κ ν) (k : κ) (fresh : ν) (change : ν → ν) :
    (t.upsert k fresh change).find k = some (((t.find k).map change).getD fresh) := by
  unfold upsert
  cases t.find k <;> simp

theorem find_upsert_of_ne (t : Table κ ν) (fresh : ν) (change : ν → ν) (hne : other ≠ k) :
    (t.upsert k fresh change).find other = t.find other := by
  unfold upsert
  cases t.find k <;> exact find_put_of_ne t _ hne

@[simp] theorem find_modify_self (t : Table κ ν) (k : κ) (change : ν → ν) :
    (t.modify k change).find k = (t.find k).map change := by
  unfold modify
  cases hfind : t.find k <;> simp [hfind]

theorem find_modify_of_ne (t : Table κ ν) (change : ν → ν) (hne : other ≠ k) :
    (t.modify k change).find other = t.find other := by
  unfold modify
  cases t.find k
  · rfl
  · exact find_put_of_ne t _ hne

theorem mem_rows_iff (t : Table κ ν) (k : κ) (v : ν) : (k, v) ∈ t.rows ↔ t.find k = some v := by
  unfold rows find
  rw [← Option.mem_def, AList.mem_lookup_iff, List.mem_map]
  constructor
  · rintro ⟨⟨key, value⟩, hmem, heq⟩
    cases heq
    exact hmem
  · intro hmem
    exact ⟨⟨k, v⟩, hmem, rfl⟩

omit [DecidableEq κ] in
theorem nodup_keys_rows (t : Table κ ν) : (t.rows.map Prod.fst).Nodup := by
  have hkeys : t.rows.map Prod.fst = t.keys := by
    simp [rows, AList.keys, List.keys, List.map_map, Function.comp_def]
  rw [hkeys]
  exact t.keys_nodup

theorem find_erase (t : Table κ ν) (k other : κ) :
    (t.erase k).find other = if other = k then none else t.find other := by
  unfold find erase
  split_ifs with heq
  · rw [heq, AList.lookup_erase]
  · exact AList.lookup_erase_ne heq

theorem length_rows_erase (t : Table κ ν) (k : κ) :
    (t.erase k).rows.length =
      if (t.find k).isSome then t.rows.length - 1 else t.rows.length := by
  have hkeys (t : Table κ ν) : t.rows.length = t.keys.length := by
    simp [rows, AList.keys, List.keys]
  have hsome : (t.find k).isSome = true ↔ k ∈ t.keys :=
    AList.lookup_isSome.trans AList.mem_keys.symm
  rw [hkeys, hkeys, erase, AList.keys_erase, List.length_erase]
  exact if_congr hsome.symm rfl rfl

theorem length_rows_put (t : Table κ ν) (k : κ) (v : ν) :
    (t.put k v).rows.length =
      if (t.find k).isSome then t.rows.length else t.rows.length + 1 := by
  have hput : (t.put k v).rows.length = (t.erase k).rows.length + 1 := rfl
  rw [hput, length_rows_erase]
  split_ifs with hfound
  · obtain ⟨v, hfind⟩ := Option.isSome_iff_exists.mp hfound
    have hpos := List.length_pos_of_mem ((mem_rows_iff t k v).mpr hfind)
    omega
  · rfl

theorem find_keep (t : Table κ ν) (test : κ → ν → Bool) (k : κ) :
    (t.keep test).find k = (t.find k).filter (test k) := by
  apply Option.ext
  intro v
  have hkept : (t.keep test).find k = some v ↔ t.find k = some v ∧ test k v = true := by
    unfold find
    rw [← Option.mem_def, ← Option.mem_def, AList.mem_lookup_iff, AList.mem_lookup_iff]
    exact List.mem_filter
  rw [hkept, Option.filter_eq_some_iff]

theorem find_of_find_keep {t : Table κ ν} {test : κ → ν → Bool} {k : κ} {v : ν}
    (hfind : (t.keep test).find k = some v) : t.find k = some v := by
  rw [find_keep] at hfind
  exact (Option.filter_eq_some_iff.mp hfind).1

theorem find_keep_of_ne (t : Table κ ν) {k key : κ} (hne : k ≠ key) :
    (t.keep fun other _ => other ≠ key).find k = t.find k := by
  rw [find_keep]
  cases t.find k <;> simp [hne]

variable {items : List (κ × ν)}

section Copy

variable {σ β : Type} (step : σ → κ × ν → σ) (read : σ → κ → β) (blank : β) (value : κ → ν → β)

omit [DecidableEq κ] in
/-- Writes under distinct keys do not interfere: what the write of a key makes of what it
finds holds in the end, and a key without a write reads as before. -/
theorem foldl_distinct (pre post : ν → β → Prop) {s : σ} {k : κ}
    (hself : ∀ s v, (k, v) ∈ items → pre v (read s k) → post v (read (step s (k, v)) k))
    (hother : ∀ s item, item ∈ items → k ≠ item.1 → read (step s item) k = read s k)
    (hdistinct : (items.map Prod.fst).Nodup) :
    (∀ v, (k, v) ∈ items → pre v (read s k) → post v (read (items.foldl step s) k)) ∧
      (k ∉ items.map Prod.fst → read (items.foldl step s) k = read s k) := by
  induction items generalizing s with
  | nil => exact ⟨fun v hmem => (nomatch hmem), fun _ => rfl⟩
  | cons item rest ih =>
    obtain ⟨hfirst, hrest⟩ := List.nodup_cons.mp hdistinct
    obtain ⟨hwritten, hkept⟩ := ih (s := step s item)
      (fun s v hmem => hself s v (List.mem_cons_of_mem item hmem))
      (fun s other hmem => hother s other (List.mem_cons_of_mem item hmem)) hrest
    rw [List.foldl_cons]
    refine ⟨?_, ?_⟩
    · intro v hmem hpre
      rcases List.mem_cons.mp hmem with rfl | hlater
      · rw [hkept hfirst]
        exact hself s v List.mem_cons_self hpre
      · have hne : k ≠ item.1 := fun heq => hfirst (heq ▸ List.mem_map_of_mem hlater)
        refine hwritten v hlater ?_
        rwa [hother s item List.mem_cons_self hne]
    · intro habsent
      rw [List.map_cons, List.mem_cons, not_or] at habsent
      rw [hkept habsent.2, hother s item List.mem_cons_self habsent.1]

/-- Copying every row of a table leaves under each key what the copy of its row is. -/
theorem foldl_rows (t : Table κ ν) {s : σ}
    (hself : ∀ s k v, t.find k = some v → read s k = blank → read (step s (k, v)) k = value k v)
    (hother : ∀ s item k, k ≠ item.1 → read (step s item) k = read s k)
    (hblank : ∀ k, read s k = blank) (k : κ) :
    read (t.rows.foldl step s) k = ((t.find k).map (value k)).getD blank := by
  obtain ⟨hwritten, hkept⟩ := foldl_distinct step read (fun _ b => b = blank)
    (fun v b => b = value k v) (s := s)
    (fun s v hmem => hself s k v ((t.mem_rows_iff k v).mp hmem)) (fun s item _ => hother s item k)
    t.nodup_keys_rows
  cases hfind : t.find k with
  | some v => exact hwritten v ((t.mem_rows_iff k v).mpr hfind) (hblank k)
  | none =>
    refine (hkept fun hmem => ?_).trans (hblank k)
    obtain ⟨⟨key, v⟩, hrow, rfl⟩ := List.mem_map.mp hmem
    rw [(t.mem_rows_iff key v).mp hrow] at hfind
    cases hfind

end Copy

end Table

end FondacoFormal.Library
