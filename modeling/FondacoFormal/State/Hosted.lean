import FondacoFormal.State.Journal

/-!
# Queries on `hosted_manifests`

`listHostedQuery` selects the rows of a feed whose path is `LIKE` a given text followed by `%`,
in the order of feed and path.
-/

namespace FondacoFormal.State

open Library

/-! ## Patterns -/

/-- `text LIKE pattern`; a pattern that ends in the escape character is refused. -/
def like : List Char → List Char → Bool
  | [], text => text.isEmpty
  | '%' :: rest, text => text.tails.any (like rest)
  | '_' :: rest, text => !text.isEmpty && like rest text.tail
  | ['\\'], _ => false
  | '\\' :: c :: rest, text => text.head? = some c && like rest text.tail
  | c :: rest, text => text.head? = some c && like rest text.tail

/-- `path LIKE start || '%'`. -/
def pathLike (start path : String) : Bool :=
  like (start.toList ++ ['%']) path.toList

theorem pathLike_empty (path : String) : pathLike "" path = true := by
  have hrest : ([] : List Char) ∈ path.toList.tails := (List.mem_tails _ _).2 List.nil_suffix
  exact List.any_eq_true.2 ⟨[], hrest, rfl⟩

/-! ## The order of rows -/

/-- `ORDER BY feed, path`. -/
def Postgres.rowLe (pg : Postgres) (a b : PathKey × HostedRow) : Prop :=
  if a.1.1 = b.1.1 then pg.textLe a.1.2 b.1.2 = true else pg.textLe a.1.1 b.1.1 = true

instance (pg : Postgres) : DecidableRel pg.rowLe := fun a b =>
  inferInstanceAs (Decidable (if a.1.1 = b.1.1 then _ else _))

instance (pg : Postgres) : Std.Total pg.rowLe where
  total a b := by
    by_cases hfeed : a.1.1 = b.1.1
    · rw [Postgres.rowLe, Postgres.rowLe, if_pos hfeed, if_pos hfeed.symm]
      exact pg.textLe_total _ _
    · rw [Postgres.rowLe, Postgres.rowLe, if_neg hfeed, if_neg fun h => hfeed h.symm]
      exact pg.textLe_total _ _

instance (pg : Postgres) : IsTrans (PathKey × HostedRow) pg.rowLe where
  trans a b c hab hbc := by
    by_cases hab' : a.1.1 = b.1.1
    · by_cases hbc' : b.1.1 = c.1.1
      · rw [Postgres.rowLe, if_pos hab'] at hab
        rw [Postgres.rowLe, if_pos hbc'] at hbc
        rw [Postgres.rowLe, if_pos (hab'.trans hbc')]
        exact pg.textLe_trans _ _ _ hab hbc
      · rw [Postgres.rowLe, if_neg hbc'] at hbc
        rw [Postgres.rowLe, if_neg fun h => hbc' (hab'.symm.trans h), hab']
        exact hbc
    · rw [Postgres.rowLe, if_neg hab'] at hab
      by_cases hbc' : b.1.1 = c.1.1
      · rw [Postgres.rowLe, if_neg fun h => hab' (h.trans hbc'.symm), ← hbc']
        exact hab
      · rw [Postgres.rowLe, if_neg hbc'] at hbc
        have hac : a.1.1 ≠ c.1.1 := by
          intro h
          rw [← h] at hbc
          exact hab' (pg.textLe_antisymm _ _ hab hbc)
        rw [Postgres.rowLe, if_neg hac]
        exact pg.textLe_trans _ _ _ hab hbc

/-! ## The queries -/

/-- `listHostedQuery`. -/
def listHosted (pg : Postgres) (feed start : String) (t : Table PathKey HostedRow) :
    List (PathKey × HostedRow) :=
  (t.rows.filter fun row => (feed = "" || row.1.1 = feed) && pathLike start row.1.2).insertionSort
    pg.rowLe

/-- `HostedRow`: the first row of the query for the path, if it is of the path. -/
def hostedRow (pg : Postgres) (feed path : String) (t : Table PathKey HostedRow) :
    Option (PathKey × HostedRow) :=
  ((listHosted pg feed path t).take 1).find? fun row => row.1.2 = path

variable {pg : Postgres} {feed : String} {t : Table PathKey HostedRow} {row : PathKey × HostedRow}
  {start : String}

theorem mem_listHosted :
    row ∈ listHosted pg feed start t ↔
      t.find row.1 = some row.2 ∧ (feed = "" ∨ row.1.1 = feed) ∧ pathLike start row.1.2 = true := by
  rw [listHosted, List.mem_insertionSort, List.mem_filter, t.mem_rows_iff]
  simp

theorem nodup_listHosted (pg : Postgres) (feed start : String) (t : Table PathKey HostedRow) :
    ((listHosted pg feed start t).map Prod.fst).Nodup := by
  have hperm := (List.perm_insertionSort pg.rowLe
    (t.rows.filter fun row => (feed = "" || row.1.1 = feed) && pathLike start row.1.2)).map Prod.fst
  exact hperm.nodup_iff.2 (t.nodup_keys_rows.sublist (List.filter_sublist.map _))

/-- The path finds its own row: it is like itself, and no other path of the feed that is like
it comes before. -/
def FindsItself (pg : Postgres) (t : Table PathKey HostedRow) (key : PathKey) : Prop :=
  pathLike key.2 key.2 = true ∧ ∀ other row, t.find (key.1, other) = some row →
    pathLike key.2 other = true → pg.textLe key.2 other = true

theorem find_of_hostedRow {path : String} {found : PathKey} {current : HostedRow}
    (hfound : hostedRow pg feed path t = some (found, current)) : t.find found = some current :=
  (mem_listHosted.1 (List.mem_of_mem_take (List.mem_of_find?_eq_some hfound))).1

theorem key_of_hostedRow {key found : PathKey} {current : HostedRow} (hfeed : key.1 ≠ "")
    (hfound : hostedRow pg key.1 key.2 t = some (found, current)) : found = key := by
  have hpath := List.find?_some hfound
  have hmem := mem_listHosted.1 (List.mem_of_mem_take (List.mem_of_find?_eq_some hfound))
  exact Prod.ext (hmem.2.1.resolve_left hfeed) (of_decide_eq_true hpath)

theorem listHosted_head {first : PathKey × HostedRow} {rest : List (PathKey × HostedRow)}
    (hlist : listHosted pg feed start t = first :: rest) (hrow : row ∈ listHosted pg feed start t) :
    row = first ∨ pg.rowLe first row := by
  have hsorted : (listHosted pg feed start t).Pairwise pg.rowLe := List.pairwise_insertionSort _ _
  rw [hlist] at hsorted hrow
  obtain heq | hlater := List.mem_cons.1 hrow
  · exact .inl heq
  · exact .inr (List.rel_of_pairwise_cons hsorted hlater)

theorem hostedRow_iff (pg : Postgres) {key : PathKey} {row : HostedRow} (hfeed : key.1 ≠ "")
    (hfind : t.find key = some row) :
    hostedRow pg key.1 key.2 t = some (key, row) ↔ FindsItself pg t key := by
  constructor
  · intro hfound
    have hmem := List.mem_of_find?_eq_some hfound
    cases hlist : listHosted pg key.1 key.2 t with
    | nil =>
      rw [hlist] at hmem
      cases hmem
    | cons first rest =>
      rw [hlist, List.take_succ_cons, List.take_zero, List.mem_singleton] at hmem
      have hown : first ∈ listHosted pg key.1 key.2 t := hlist ▸ List.mem_cons_self
      rw [← hmem] at hown hlist
      refine ⟨(mem_listHosted.1 hown).2.2, fun other found hother hlike => ?_⟩
      have hlisted : ((key.1, other), found) ∈ listHosted pg key.1 key.2 t :=
        mem_listHosted.2 ⟨hother, .inr rfl, hlike⟩
      obtain heq | hle := listHosted_head hlist hlisted
      · have hsame : other = key.2 := congrArg (fun row => row.1.2) heq
        rw [hsame]
        exact (pg.textLe_total _ _).elim id id
      · rw [Postgres.rowLe, if_pos rfl] at hle
        exact hle
  · rintro ⟨hself, hfirst⟩
    have hown : (key, row) ∈ listHosted pg key.1 key.2 t :=
      mem_listHosted.2 ⟨hfind, .inr rfl, hself⟩
    cases hlist : listHosted pg key.1 key.2 t with
    | nil =>
      rw [hlist] at hown
      cases hown
    | cons first rest =>
      have hmem : first ∈ listHosted pg key.1 key.2 t := hlist ▸ List.mem_cons_self
      obtain ⟨hstored, hfeed', hlike⟩ := mem_listHosted.1 hmem
      obtain ⟨⟨feed, path⟩, found⟩ := first
      obtain rfl : feed = key.1 := hfeed'.resolve_left hfeed
      have hpath : path = key.2 := by
        obtain heq | hle := listHosted_head hlist hown
        · exact (congrArg (fun row => row.1.2) heq).symm
        · rw [Postgres.rowLe, if_pos rfl] at hle
          exact pg.textLe_antisymm _ _ hle (hfirst path found hstored hlike)
      subst hpath
      have hrow : found = row := Option.some.inj (hstored.symm.trans hfind)
      rw [hostedRow, hlist, hrow]
      simp

end FondacoFormal.State
