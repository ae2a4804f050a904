import FondacoFormal.Pipeline.Keys

/-!
# One pass of the projection repair

`RepairOnce` lists the hosted rows, compares each with the object under its key and, where they
disagree, reads the row again and writes its projection.
-/

namespace FondacoFormal.Pipeline

open Library State Repl

/-! ## The pass -/

inductive Stored where
  | manifest (m : Manifest)
  | undecodable (content : List UInt8)

def manifestKey (key : PathKey) : String :=
  "manifests/" ++ key.1 ++ "/" ++ key.2

/-- `projectionMatches`. -/
def projectionMatches (store : String → Option Stored) (key : PathKey) (row : HostedRow) : Bool :=
  match store (manifestKey key) with
  | some (.manifest m) => m.sha256 = row.sha256 && m.size = row.size
  | some (.undecodable _) | none => false

structure RepairPass where
  store : String → Option Stored
  divergent : Nat := 0
  repaired : Nat := 0
  failed : Nat := 0

/-- `WriteReplicatedManifest` for a row that was read. -/
def RepairPass.write (pass : RepairPass) (now : Int) (found : PathKey) (current : HostedRow) :
    RepairPass :=
  if replicatedTarget found.1 found.2 then
    { pass with
      store := Function.update pass.store (manifestKey found)
        (some (.manifest (projectedManifest true now (rowProjection found current))))
      repaired := pass.repaired + 1 }
  else { pass with failed := pass.failed + 1 }

def repairRow (pg : Postgres) (clock : PathKey → Int) (hosted : Table PathKey HostedRow)
    (pass : RepairPass) (listed : PathKey × HostedRow) : RepairPass :=
  if projectionMatches pass.store listed.1 listed.2 then pass
  else
    let divergent := { pass with divergent := pass.divergent + 1 }
    match hostedRow pg listed.1.1 listed.1.2 hosted with
    | none => divergent
    | some (found, current) =>
      if current.sha256 ≠ listed.2.sha256 then divergent
      else divergent.write (clock listed.1) found current

/-- `RepairOnce` with a database, no call failing. -/
def repairOnce (pg : Postgres) (clock : PathKey → Int) (hosted : Table PathKey HostedRow)
    (store : String → Option Stored) : RepairPass :=
  (listHosted pg "" "" hosted).foldl (repairRow pg clock hosted) { store := store }

/-! ## What it leaves under each key -/

def Fits (row : HostedRow) (content : Option Stored) : Prop :=
  ∃ m, content = some (.manifest m) ∧ m.sha256 = row.sha256 ∧ m.size = row.size

variable {key : PathKey} {row : HostedRow}

theorem projectionMatches_iff {store : String → Option Stored} :
    projectionMatches store key row = true ↔ Fits row (store (manifestKey key)) := by
  rw [projectionMatches, Fits]
  cases store (manifestKey key) with
  | none => simp
  | some stored =>
    cases stored with
    | manifest m | undecodable content => simp

theorem slash_not_mem_of_target (htarget : replicatedTarget key.1 key.2 = true) :
    key.1 ≠ "" ∧ '/' ∉ key.1.toList := by
  rw [replicatedTarget, Bool.and_eq_true, Bool.and_eq_true, List.all_eq_true] at htarget
  obtain ⟨⟨-, hne⟩, hall⟩ := htarget
  exact ⟨of_decide_eq_true hne, fun hmem => absurd (hall '/' hmem) (by decide)⟩

open Paths in
theorem segments_manifestKey (hfree : '/' ∉ key.1.toList) :
    segments (manifestKey key).toList =
      "manifests".toList :: key.1.toList :: segments key.2.toList := by
  have htext : (manifestKey key).toList =
      "manifests".toList ++ '/' :: (key.1.toList ++ '/' :: key.2.toList) := by
    simp [manifestKey, String.toList_append]
  rw [htext, segments_append_slash, segments_append_slash, segments_of_not_mem hfree,
    segments_of_not_mem (by decide)]
  rfl

theorem manifestKey_inj {a b : PathKey} (ha : '/' ∉ a.1.toList) (hb : '/' ∉ b.1.toList)
    (heq : manifestKey a = manifestKey b) : a = b := by
  have hsegments := segments_manifestKey ha
  rw [heq, segments_manifestKey hb] at hsegments
  obtain ⟨-, hrest⟩ := List.cons.inj hsegments
  obtain ⟨hfeed, hpath⟩ := List.cons.inj hrest
  exact Prod.ext (String.toList_inj.1 hfeed.symm)
    (String.toList_inj.1 (Paths.segments_injective hpath.symm))

section

variable {pg : Postgres} {clock : PathKey → Int} {hosted : Table PathKey HostedRow}
  {pass : RepairPass} {key : PathKey} {row : HostedRow}

theorem repairRow_of_fits (hfits : Fits row (pass.store (manifestKey key))) :
    repairRow pg clock hosted pass (key, row) = pass := by
  rw [repairRow, if_pos (projectionMatches_iff.2 hfits)]

variable (htarget : replicatedTarget key.1 key.2 = true)

include htarget

theorem repairRow_of_found (hfind : hosted.find key = some row)
    (hfinds : FindsItself pg hosted key) :
    Fits row ((repairRow pg clock hosted pass (key, row)).store (manifestKey key)) := by
  by_cases hfits : Fits row (pass.store (manifestKey key))
  · rw [repairRow_of_fits hfits]
    exact hfits
  · have hread := (hostedRow_iff pg (slash_not_mem_of_target htarget).1 hfind).2 hfinds
    rw [repairRow, if_neg fun h => hfits (projectionMatches_iff.1 h)]
    simp only [hread, ne_eq, not_true_eq_false, if_false, RepairPass.write, htarget, if_true,
      Function.update_self]
    exact ⟨_, rfl, rfl, rfl⟩

theorem repairRow_of_lost (hfind : hosted.find key = some row)
    (hfinds : ¬FindsItself pg hosted key) :
    (repairRow pg clock hosted pass (key, row)).store = pass.store := by
  have hfeed := (slash_not_mem_of_target htarget).1
  rw [repairRow]
  split
  · rfl
  · cases hread : hostedRow pg key.1 key.2 hosted with
    | none => rfl
    | some read =>
      obtain ⟨found, current⟩ := read
      have hkey := key_of_hostedRow hfeed hread
      subst hkey
      have hcurrent : current = row :=
        Option.some.inj ((find_of_hostedRow hread).symm.trans hfind)
      rw [hcurrent] at hread
      exact absurd ((hostedRow_iff pg hfeed hfind).1 hread) hfinds

theorem repairRow_other {other : PathKey} (hother : '/' ∉ other.1.toList) (hne : other ≠ key) :
    (repairRow pg clock hosted pass (key, row)).store (manifestKey other) =
      pass.store (manifestKey other) := by
  obtain ⟨hfeed, hfree⟩ := slash_not_mem_of_target htarget
  rw [repairRow]
  split
  · rfl
  · cases hread : hostedRow pg key.1 key.2 hosted with
    | none => rfl
    | some read =>
      obtain ⟨found, current⟩ := read
      have hkey := key_of_hostedRow hfeed hread
      subst hkey
      dsimp only
      split
      · rfl
      · rw [RepairPass.write, if_pos htarget]
        exact Function.update_of_ne (fun h => hne (manifestKey_inj hother hfree h)) _ _

end

section

variable {hosted : Table PathKey HostedRow}
  (hvalid : ∀ key row, hosted.find key = some row → replicatedTarget key.1 key.2 = true)
include hvalid

theorem repairOnce_key (pg : Postgres) (clock : PathKey → Int) (store : String → Option Stored)
    (hfind : hosted.find key = some row) (post : Option Stored → Prop)
    (hself : ∀ pass : RepairPass, pass.store (manifestKey key) = store (manifestKey key) →
      post ((repairRow pg clock hosted pass (key, row)).store (manifestKey key))) :
    post ((repairOnce pg clock hosted store).store (manifestKey key)) := by
  have hlisted : (key, row) ∈ listHosted pg "" "" hosted :=
    mem_listHosted.2 ⟨hfind, .inl rfl, pathLike_empty _⟩
  have hfree := (slash_not_mem_of_target (hvalid key row hfind)).2
  refine (Table.foldl_distinct (repairRow pg clock hosted)
    (fun pass key => pass.store (manifestKey key))
    (fun _ content => content = store (manifestKey key)) (fun _ content => post content)
    ?_ ?_ (nodup_listHosted pg "" "" hosted)).1 row hlisted rfl
  · intro pass found hmem hcontent
    have hsame : found = row :=
      Option.some.inj ((mem_listHosted.1 hmem).1.symm.trans hfind)
    rw [hsame]
    exact hself pass hcontent
  · intro pass item hitem hne
    exact repairRow_other (hvalid _ _ (mem_listHosted.1 hitem).1) hfree hne

theorem repairOnce_fits (pg : Postgres) (clock : PathKey → Int) (store : String → Option Stored)
    (hfind : hosted.find key = some row) :
    Fits row ((repairOnce pg clock hosted store).store (manifestKey key)) ↔
      Fits row (store (manifestKey key)) ∨ FindsItself pg hosted key := by
  have htarget := hvalid key row hfind
  by_cases hfinds : FindsItself pg hosted key
  · have hfits := repairOnce_key hvalid pg clock store hfind (Fits row)
      fun pass _ => repairRow_of_found htarget hfind hfinds
    exact ⟨fun _ => .inr hfinds, fun _ => hfits⟩
  · have hkept := repairOnce_key hvalid pg clock store hfind
      (fun content => content = store (manifestKey key)) fun pass hpass => by
        rw [repairRow_of_lost htarget hfind hfinds, hpass]
    rw [hkept]
    exact ⟨.inl, fun h => h.resolve_right hfinds⟩

/--
One pass leaves every row with a projection of its digest and size, exactly when each row
that has none is found again by the query that reads it: its path is like itself, and no
other path of the feed that is like it comes before it.
-/
theorem repairOnce_complete_iff (pg : Postgres) (clock : PathKey → Int)
    (store : String → Option Stored) :
    (∀ key row, hosted.find key = some row →
        projectionMatches (repairOnce pg clock hosted store).store key row = true) ↔
      ∀ key row, hosted.find key = some row → projectionMatches store key row = false →
        FindsItself pg hosted key := by
  constructor
  · intro hall key row hfind hdiverges
    have hfits := (repairOnce_fits hvalid pg clock store hfind).1
      (projectionMatches_iff.1 (hall key row hfind))
    refine hfits.resolve_left fun hbefore => ?_
    rw [projectionMatches_iff.2 hbefore] at hdiverges
    cases hdiverges
  · intro hall key row hfind
    refine projectionMatches_iff.2 ((repairOnce_fits hvalid pg clock store hfind).2 ?_)
    cases hbefore : projectionMatches store key row with
    | true => exact .inl (projectionMatches_iff.1 hbefore)
    | false => exact .inr (hall key row hfind hbefore)

end

/-! ## Rows -/

def packageRow (sha256 : String) : HostedRow where
  coordinate := "npm/pkg@1"
  sha256 := sha256
  size := 3
  checksums := []
  metadata := {}
  mutable := false
  origin := "publish"
  site := "east"
  publishedBy := "ci"

def siblings : Table PathKey HostedRow :=
  (Table.put ∅ ("npm", "a_b/1.tgz") (packageRow "aa")).put ("npm", "aXb/1.tgz") (packageRow "bb")

theorem siblings_valid :
    ∀ key row, siblings.find key = some row → replicatedTarget key.1 key.2 = true := by
  intro key row hfind
  rw [siblings, Table.find_put, Table.find_put] at hfind
  split at hfind
  · next heq =>
      rw [heq]
      decide +kernel
  · split at hfind
    · next heq =>
        rw [heq]
        decide +kernel
    · cases hfind

/-- The underscore matches the letter of the sibling, which sorts first. -/
theorem sibling_hides_the_row :
    (∀ key row, siblings.find key = some row → replicatedTarget key.1 key.2 = true) ∧
      siblings.find ("npm", "a_b/1.tgz") = some (packageRow "aa") ∧
      projectionMatches (repairOnce .plain (fun _ => 0) siblings fun _ => none).store
        ("npm", "a_b/1.tgz") (packageRow "aa") = false := by
  refine ⟨siblings_valid, by decide +kernel, by decide +kernel⟩

def onePackage : Table PathKey HostedRow :=
  Table.put ∅ ("npm", "a_b/1.tgz") (packageRow "aa")

theorem onePackage_find (hfind : onePackage.find key = some row) : key = ("npm", "a_b/1.tgz") := by
  rw [onePackage, Table.find_put] at hfind
  split at hfind
  · next heq => exact heq
  · cases hfind

theorem onePackage_repaired :
    onePackage.find ("npm", "a_b/1.tgz") = some (packageRow "aa") ∧
      ∀ key row, onePackage.find key = some row →
        projectionMatches (repairOnce .plain (fun _ => 0) onePackage fun _ => none).store key row =
          true := by
  refine ⟨by decide +kernel, (repairOnce_complete_iff ?_ .plain (fun _ => 0) fun _ => none).2 ?_⟩
  · intro key row hfind
    rw [onePackage_find hfind]
    decide +kernel
  · intro key row hfind _
    rw [onePackage_find hfind]
    refine ⟨by decide +kernel, fun other found hother _ => ?_⟩
    have hsame : other = "a_b/1.tgz" := congrArg Prod.snd (onePackage_find hother)
    rw [hsame]
    decide +kernel

end FondacoFormal.Pipeline
