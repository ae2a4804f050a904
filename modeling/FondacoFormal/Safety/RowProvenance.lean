import FondacoFormal.Repl.Site
import Mathlib.Logic.Function.Basic

/-!
# Where a hosted row comes from

Several sites publish, exchange events and import each other's snapshots. The publishes made so
far are kept beside the sites.
-/

namespace FondacoFormal.Safety

open Library Library.Runs State Repl

structure Publish where
  feed : String
  path : String
  sha256 : String
  size : Int
  checksums : StringMap
  site : String
  deriving DecidableEq, Repr

def Consistent (published : List Publish) : Prop :=
  ∀ x ∈ published, ∀ y ∈ published, x.feed = y.feed → x.path = y.path → x.sha256 = y.sha256 →
    x.size = y.size ∧ x.checksums = y.checksums

def rowPublish (key : PathKey) (row : HostedRow) : Publish :=
  ⟨key.1, key.2, row.sha256, row.size, row.checksums, row.site⟩

def announcedPublish (e : JournalEntry) : List Publish :=
  match e.event with
  | .manifestPut (.ok p) => [⟨p.feed, p.path, p.sha256, p.size, p.checksums, e.originSite⟩]
  | _ => []

def DataBacked (published : List Publish) (feed path sha : String) (size : Int)
    (checksums : StringMap) : Prop :=
  ∃ site, ⟨feed, path, sha, size, checksums, site⟩ ∈ published

def PublishedBy (published : List Publish) (feed path sha site : String) : Prop :=
  ∃ x ∈ published, x.feed = feed ∧ x.path = path ∧ x.sha256 = sha ∧ x.site = site

structure Backed (published : List Publish) (s : SiteState) : Prop where
  rows : ∀ key row, s.hosted.find key = some row → rowPublish key row ∈ published
  sides : ∀ c ∈ s.conflicts,
    DataBacked published c.feed c.path c.winnerSha c.winnerMeta.size c.winnerMeta.checksums ∧
    DataBacked published c.feed c.path c.loserSha c.loserMeta.size c.loserMeta.checksums
  decisions : ∀ key row, s.resolutions.find key = some row →
    DataBacked published key.1 key.2 row.keepSha row.size row.checksums

structure SnapshotBacked (published : List Publish) (snap : Snapshot) : Prop where
  manifests : ∀ p ∈ snap.manifests,
    (⟨p.feed, p.path, p.sha256, p.size, p.checksums, p.site⟩ : Publish) ∈ published
  conflicts : ∀ c ∈ snap.conflicts,
    DataBacked published c.feed c.path c.winnerSha c.winner.size c.winner.checksums ∧
    DataBacked published c.feed c.path c.loserSha c.loser.size c.loser.checksums
  resolutions : ∀ r ∈ snap.resolutions,
    DataBacked published r.feed r.path r.keepSha r.size r.checksums

/-! ## Which site a resolution leaves in the row -/

def siteLeft (pg : Postgres) (s : SiteState) (feed path keepSha decidedBy : String) : String :=
  match s.hosted.find (feed, path) with
  | some row => row.site
  | none =>
    if conflictSideSite pg s feed path keepSha = "" then decidedBy
    else conflictSideSite pg s feed path keepSha

def winningSha (s : SiteState) (feed path : String) (h : HLC) (keepSha : String) : String :=
  match storedResolution s feed path with
  | some stored =>
    if decidedBefore stored.hlc stored.keepSha h keepSha then keepSha else stored.keepSha
  | none => keepSha

/-- No publish of the digest at the path is empty while another row stores it with a size. -/
def SizeKnown (published : List Publish) (pg : Postgres) (s : SiteState)
    (feed path sha : String) : Prop :=
  0 < blobSize pg s sha → ∀ x ∈ published, x.feed = feed → x.path = path → x.sha256 = sha →
    x.size ≠ 0

def EventKeepsProvenance (published : List Publish) (pg : Postgres) (e : JournalEntry)
    (s : SiteState) : Prop :=
  match e.event with
  | .manifestPut (.ok p) => ∀ decision, storedResolution s p.feed p.path = some decision →
      PublishedBy published p.feed p.path decision.keepSha
        (siteLeft pg (fileRejected e p decision s) p.feed p.path decision.keepSha e.originSite)
  | .conflictResolve (.ok p) =>
    SizeKnown published pg s p.feed p.path p.keepSha ∧
    PublishedBy published p.feed p.path (winningSha s p.feed p.path e.hlc p.keepSha)
      (siteLeft pg s p.feed p.path (winningSha s p.feed p.path e.hlc p.keepSha) e.originSite)
  | _ => True

/-- The publish that a put tells of. -/
def putPublish (p : ManifestPut) (e : JournalEntry) : Publish :=
  ⟨p.feed, p.path, p.sha256, p.size, p.checksums, publishingSite p e⟩

/-! ## Merging keeps the data -/

variable {p : ManifestPut} {a : Applier} {checksums : StringMap} {decision : Resolution}
  {req : PublishRequest} {clock : TxClock} {r : Resolution} {snap : Snapshot}

section Merge

variable {published : List Publish}

theorem Backed.empty : Backed published {} := by
  refine ⟨?_, ?_, ?_⟩
  · intro key row hrow
    cases hrow
  · intro c hmem
    cases hmem
  · intro key row hrow
    cases hrow

variable {more : List Publish} {feed path sha : String}

section

variable (hsub : published ⊆ more)

include hsub

theorem DataBacked.mono {size : Int} (hdata : DataBacked published feed path sha size checksums) :
    DataBacked more feed path sha size checksums := by
  obtain ⟨site, hmem⟩ := hdata
  exact ⟨site, hsub hmem⟩

variable {s : SiteState}

theorem Backed.mono (backed : Backed published s) : Backed more s where
  rows key row hrow := hsub (backed.rows key row hrow)
  sides c hmem := ⟨(backed.sides c hmem).1.mono hsub, (backed.sides c hmem).2.mono hsub⟩
  decisions key row hrow := (backed.decisions key row hrow).mono hsub

theorem SnapshotBacked.mono (backed : SnapshotBacked published snap) :
    SnapshotBacked more snap where
  manifests p hmem := hsub (backed.manifests p hmem)
  conflicts c hmem :=
    ⟨(backed.conflicts c hmem).1.mono hsub, (backed.conflicts c hmem).2.mono hsub⟩
  resolutions r hmem := (backed.resolutions r hmem).mono hsub

end

variable {t : SiteState}

section

variable (backed : Backed published s)

include backed

theorem Backed.of_tables (hhosted : t.hosted = s.hosted) (hconflicts : t.conflicts = s.conflicts)
    (hresolutions : t.resolutions = s.resolutions) : Backed published t := by
  obtain ⟨rows, sides, decisions⟩ := backed
  rw [← hhosted] at rows
  rw [← hconflicts] at sides
  rw [← hresolutions] at decisions
  exact ⟨rows, sides, decisions⟩

theorem Backed.of_same (same : SameTables s t) : Backed published t :=
  backed.of_tables same.hosted same.conflicts same.resolutions

theorem Backed.sync (feed coord : String) :
    Backed published (syncConflictQuarantineTx feed coord s) :=
  backed.of_tables (by simp) (by simp) (by simp)

theorem Backed.put {key : PathKey} {row : HostedRow} (hself : t.hosted.find key = some row)
    (hothers : ∀ other, other ≠ key → t.hosted.find other = s.hosted.find other)
    (hconflicts : t.conflicts = s.conflicts) (hresolutions : t.resolutions = s.resolutions)
    (hrow : rowPublish key row ∈ published) : Backed published t := by
  refine ⟨?_, by rw [hconflicts]; exact backed.sides,
    by rw [hresolutions]; exact backed.decisions⟩
  intro other stored hstored
  by_cases heq : other = key
  · subst heq
    rw [hself] at hstored
    cases hstored
    exact hrow
  · rw [hothers other heq] at hstored
    exact backed.rows other stored hstored

theorem Backed.append {c : ConflictRow}
    (hwinner : DataBacked published c.feed c.path c.winnerSha c.winnerMeta.size
      c.winnerMeta.checksums)
    (hloser : DataBacked published c.feed c.path c.loserSha c.loserMeta.size
      c.loserMeta.checksums) :
    Backed published { s with conflicts := s.conflicts ++ [c] } := by
  refine ⟨backed.rows, ?_, backed.decisions⟩
  intro row hmem
  rcases List.mem_append.mp hmem with hold | hnew
  · exact backed.sides row hold
  · rw [List.mem_singleton.mp hnew]
    exact ⟨hwinner, hloser⟩

theorem Backed.stored (hstored : storedResolution s feed path = some decision) :
    DataBacked published feed path decision.keepSha decision.size decision.checksums := by
  obtain ⟨row, hrow, rfl⟩ := Option.map_eq_some_iff.mp hstored
  exact backed.decisions (feed, path) row hrow

end

variable {site : String}

theorem PublishedBy.publish (hconsistent : Consistent published) {size : Int}
    (hsite : PublishedBy published feed path sha site)
    (hdata : DataBacked published feed path sha size checksums) :
    (⟨feed, path, sha, size, checksums, site⟩ : Publish) ∈ published := by
  obtain ⟨x, hx, rfl, rfl, rfl, rfl⟩ := hsite
  obtain ⟨other, hother⟩ := hdata
  obtain ⟨hsize, hsums⟩ := hconsistent _ hother x hx rfl rfl rfl
  dsimp only at hsize hsums
  rw [hsize, hsums]
  exact hx

theorem writeResolved_rowPublish (feed path coord site : String) (r : Resolution)
    (s : SiteState) : ∃ row,
      (writeResolved feed path coord r site s).hosted.find (feed, path) = some row ∧
      rowPublish (feed, path) row = ⟨feed, path, r.keepSha, r.size, r.checksums,
        ((s.hosted.find (feed, path)).map HostedRow.site).getD site⟩ := by
  simp only [writeResolved, Table.find_upsert_self]
  cases s.hosted.find (feed, path) with
  | none | some row => exact ⟨_, rfl, rfl⟩

theorem Backed.close (backed : Backed published s) (feed path keepSha : String) :
    Backed published (closeConflicts feed path keepSha s) := by
  refine ⟨backed.rows, ?_, backed.decisions⟩
  intro c hmem
  obtain ⟨row, hrow, hc⟩ := List.mem_map.mp hmem
  split at hc <;> (rw [← hc]; exact backed.sides row hrow)

/-- Applying a backed decision keeps the rows backed if the site left published the digest. -/
theorem Backed.applyResolution (hconsistent : Consistent published) (backed : Backed published s)
    {decidedBy : String} (hdata : DataBacked published feed path r.keepSha r.size r.checksums)
    (pg : Postgres) (hsite : PublishedBy published feed path r.keepSha
      (siteLeft pg s feed path r.keepSha decidedBy)) (coord : String) :
    Backed published (applyResolutionTx pg feed path coord r decidedBy s) := by
  refine Backed.sync (.close ?_ feed path r.keepSha) feed coord
  obtain ⟨row, hrow, hpublish⟩ := writeResolved_rowPublish feed path coord _ r s
  refine backed.put hrow (fun other hne => writeResolved_find_of_ne _ _ _ _ hne) rfl rfl ?_
  rw [hpublish]
  unfold siteLeft at hsite
  cases hfind : s.hosted.find (feed, path) <;> rw [hfind] at hsite <;>
    exact hsite.publish hconsistent hdata

variable {e : JournalEntry}

section

variable (backed : Backed published s)

include backed

theorem Backed.fileRejected
    (hdecision : DataBacked published p.feed p.path decision.keepSha decision.size
      decision.checksums) (hput : DataBacked published p.feed p.path p.sha256 p.size p.checksums) :
    Backed published (fileRejected e p decision s) := by
  unfold Repl.fileRejected
  split
  · exact backed
  · refine Backed.sync ?_ p.feed p.coord
    unfold recordResolvedConflictTx
    split
    · exact backed
    · exact backed.append hdecision hput

variable {pg : Postgres}

theorem Backed.side {side : SideMeta} (hsize : SizeKnown published pg s feed path sha)
    (hside : conflictSide pg s feed path sha = some side) :
    DataBacked published feed path side.sha256 side.size side.checksums := by
  rw [conflictSide_sha hside]
  obtain ⟨recorded, hrecorded, hside⟩ := Option.map_eq_some_iff.mp hside
  obtain ⟨c, hmem, hc⟩ := List.exists_of_findSome?_eq_some hrecorded
  -- The recorded side is backed, since its conflict row is one of the table's.
  have hbacked : DataBacked published feed path sha recorded.size recorded.checksums := by
    have hfiltered := (pg.conflictOrder_perm _).mem_iff.mp hmem
    obtain ⟨hrow, hpath⟩ := List.mem_filter.mp hfiltered
    obtain ⟨rfl, rfl⟩ := ConflictRow.onPath_iff.mp hpath
    obtain ⟨hwinner, hloser⟩ := backed.sides c hrow
    unfold ConflictRow.side? at hc
    split at hc
    · rename_i hsha
      cases hc
      rw [← hsha]
      exact hwinner
    · split at hc
      · rename_i hsha
        cases hc
        rw [← hsha]
        exact hloser
      · cases hc
  -- Recovering from the row keeps it backed; recovering from elsewhere is ruled out.
  have hstored : ∀ row, hostedState s feed path = some row → row.sha256 = sha →
      DataBacked published feed path sha row.size row.checksums := by
    intro row hrow hsha
    refine ⟨row.site, ?_⟩
    rw [← hsha]
    exact backed.rows (feed, path) row hrow
  have hfinish : ∀ found : SideMeta,
      DataBacked published feed path sha found.size found.checksums →
      DataBacked published feed path sha
        (if found.size = 0 ∧ 0 < blobSize pg s sha then
          { found with size := blobSize pg s sha } else found).size
        (if found.size = 0 ∧ 0 < blobSize pg s sha then
          { found with size := blobSize pg s sha } else found).checksums := by
    intro found hfound
    rw [if_neg]
    · exact hfound
    · rintro ⟨hzero, hblob⟩
      obtain ⟨site, hpublish⟩ := hfound
      exact hsize hblob _ hpublish rfl rfl rfl hzero
  rw [← hside, recoverSide]
  dsimp only
  split
  · exact hbacked
  apply hfinish
  split
  · split
    · rename_i row hrow
      split
      · rename_i hsha
        exact hstored row hrow hsha
      · exact hbacked
    · exact hbacked
  · exact hbacked

theorem Backed.record (hdata : DataBacked published feed path r.keepSha r.size r.checksums)
    (coord operator decidedBy : String) :
    Backed published (recordResolution feed path coord r operator decidedBy s) := by
  refine ⟨backed.rows, backed.sides, ?_⟩
  intro key row hrow
  by_cases hkey : key = (feed, path)
  · subst hkey
    simp only [recordResolution, Table.find_upsert_self, Option.some.injEq] at hrow
    rw [← hrow]
    cases hstored : s.resolutions.find (feed, path) with
    | none => exact hdata
    | some stored =>
      simp only [Option.map_some, Option.getD_some]
      split
      · exact hdata
      · exact backed.decisions (feed, path) stored hstored
  · simp only [recordResolution, Table.find_upsert_of_ne _ _ _ hkey] at hrow
    exact backed.decisions key row hrow

end

theorem recordResolution_winning (feed path coord operator decidedBy : String) (r : Resolution)
    (s : SiteState) : ∃ stored,
      storedResolution (recordResolution feed path coord r operator decidedBy s) feed path =
        some stored ∧ stored.keepSha = winningSha s feed path r.hlc r.keepSha := by
  unfold winningSha
  rcases storedResolution_recordResolution_cases feed path coord operator decidedBy r s with
    ⟨hnew, hbefore⟩ | ⟨stored, hstored, hkept, hsame⟩
  · refine ⟨r, hnew, ?_⟩
    cases hstored : storedResolution s feed path with
    | none => rfl
    | some stored => simp [hbefore stored hstored]
  · exact ⟨stored, hsame, by simp [hstored, hkept]⟩

theorem Backed.mergeConflict (backed : Backed published s) {existing : HostedRow}
    (present : hostedState s p.feed p.path = some existing)
    (hput : putPublish p e ∈ published) :
    Backed published (mergeConflict e p existing s).state := by
  have hincoming : DataBacked published p.feed p.path p.sha256 p.size p.checksums := ⟨_, hput⟩
  have hstored : DataBacked published p.feed p.path existing.sha256 existing.size
      existing.checksums := ⟨_, backed.rows _ _ present⟩
  have hupdated : Backed published (updateHosted p e s) :=
    backed.put (updateHosted_find_self present e)
      (fun other hne => Table.find_modify_of_ne _ _ hne) rfl rfl hput
  refine Backed.sync (Backed.append ?_ ?_ ?_) p.feed p.coord
  · split_ifs
    · exact backed
    · exact hupdated
    · exact backed
    · exact hupdated
  · split_ifs
    · exact hstored
    · exact hincoming
  · split_ifs
    · exact hincoming
    · exact hstored

variable {peer : String}

theorem Backed.merge (hconsistent : Consistent published) {after : SiteState}
    (backed : Backed published s)
    (hput : ∀ p, e.event = .manifestPut (.ok p) → putPublish p e ∈ published)
    (hcond : EventKeepsProvenance published a.pg e s) (hmerged : Merged a peer e s after) :
    Backed published after := by
  unfold EventKeepsProvenance at hcond
  cases hmerged with
  | @resolved p decision body _ _ stored =>
    rw [body] at hcond
    have hdecision := backed.stored stored
    have hfiled : Backed published (Repl.fileRejected e p decision s) :=
      backed.fileRejected hdecision ⟨_, hput p body⟩
    exact hfiled.applyResolution hconsistent hdecision a.pg (hcond decision stored) p.coord
  | @inserted p body _ _ _ absent =>
    refine backed.put (Table.find_insertNew_self _ _ _)
      (fun other hne => Table.find_insertNew_of_ne _ _ hne) rfl rfl ?_
    unfold hostedState at absent
    rw [absent]
    exact hput p body
  | @newer p existing body _ _ _ present _ _ =>
    exact backed.put (updateHosted_find_self present e)
      (fun other hne => Table.find_modify_of_ne _ _ hne) rfl rfl (hput p body)
  | older | repeated => exact backed
  | @conflicted p existing body _ _ _ present _ _ =>
    exact backed.mergeConflict present (hput p body)
  | noticed => exact backed
  | fetched => exact backed.of_tables rfl rfl rfl
  | revoked _ _ ran =>
    obtain ⟨tokens, rfl⟩ := revokeToken_tokens ran
    exact backed.of_tables rfl rfl rfl
  | blocked | released => exact backed.of_tables rfl rfl rfl
  | @decided p side body _ recorded =>
    rw [body] at hcond
    obtain ⟨hsize, hsite⟩ := hcond
    have hkeep : side.sha256 = p.keepSha := conflictSide_sha recorded
    have hrecorded := backed.record (r := SideMeta.decision side e.hlc)
      (backed.side hsize recorded) p.coord p.operator e.originSite
    obtain ⟨stored, hstored, hwinning⟩ := recordResolution_winning p.feed p.path p.coord
      p.operator e.originSite (SideMeta.decision side e.hlc) s
    simp only [SideMeta.decision, hkeep] at hwinning
    unfold mergeDecision
    dsimp only
    rw [hstored]
    refine hrecorded.applyResolution hconsistent (hrecorded.stored hstored) a.pg ?_ p.coord
    rw [hwinning]
    exact hsite

theorem siteLeft_congr (hhosted : t.hosted = s.hosted) (hconflicts : t.conflicts = s.conflicts)
    (pg : Postgres) (feed path keepSha decidedBy : String) :
    siteLeft pg t feed path keepSha decidedBy = siteLeft pg s feed path keepSha decidedBy := by
  unfold siteLeft conflictSideSite conflictsOf
  rw [hhosted, hconflicts]

theorem fileRejected_conflicts_congr (hconflicts : t.conflicts = s.conflicts) (e : JournalEntry)
    (p : ManifestPut) (decision : Resolution) :
    (fileRejected e p decision t).conflicts = (fileRejected e p decision s).conflicts := by
  unfold fileRejected
  split
  · exact hconflicts
  · simp only [syncConflictQuarantineTx_conflicts, recordResolvedConflictTx, hconflicts]
    split
    · exact hconflicts
    · rfl

theorem EventKeepsProvenance.of_same (hcond : EventKeepsProvenance published pg e s)
    (same : SameTables s t) : EventKeepsProvenance published pg e t := by
  unfold EventKeepsProvenance at hcond ⊢
  split
  · rename_i p hbody
    rw [hbody] at hcond
    intro decision hdecision
    rw [storedResolution_congr same.resolutions] at hdecision
    rw [siteLeft_congr (s := fileRejected e p decision s)]
    · exact hcond decision hdecision
    · rw [(fileRejected_spec e p decision t).1, same.hosted, (fileRejected_spec e p decision s).1]
    · exact fileRejected_conflicts_congr same.conflicts e p decision
  · rename_i p hbody
    rw [hbody] at hcond
    have hwinning : winningSha t p.feed p.path e.hlc p.keepSha =
        winningSha s p.feed p.path e.hlc p.keepSha := by
      unfold winningSha
      rw [storedResolution_congr same.resolutions]
    have hblob : blobSize pg t p.keepSha = blobSize pg s p.keepSha := by
      unfold blobSize
      rw [same.hosted]
    unfold SizeKnown
    rw [hwinning, hblob, siteLeft_congr same.hosted same.conflicts]
    exact hcond
  · trivial

theorem Backed.eventStep (hconsistent : Consistent published) (backed : Backed published s)
    (hput : ∀ p, e.event = .manifestPut (.ok p) → putPublish p e ∈ published)
    (hcond : EventKeepsProvenance published a.pg e s) (step : EventStep a peer e s t) :
    Backed published t := by
  cases step with
  | kept same => exact backed.of_same same
  | merged before merge rest =>
    have hbefore := backed.of_same before
    exact (hbefore.merge hconsistent hput (hcond.of_same before) merge).of_same rest

/-! ## Local writes and snapshots -/

section

variable (backed : Backed published s)

include backed

theorem Backed.publish (step : PublishStep site req s t) (hpublish : ¬ SameTables s t →
      (⟨req.feed, req.path, req.sha256, req.size, req.checksums, site⟩ : Publish) ∈ published) :
    Backed published t := by
  by_cases hsame : SameTables s t
  · exact backed.of_same hsame
  · have hmem := hpublish hsame
    cases step with
    | kept same => exact backed.of_same same
    | written h row =>
      cases row with
      | created absent written | republished present mutables differs written =>
        refine Backed.of_same ?_ written
        exact backed.put (Table.find_put_self _ _ _)
          (fun other hne => Table.find_put_of_ne _ _ hne) rfl rfl hmem

theorem Backed.restrict {next : SiteState} (hsnap : SnapshotBacked published snap)
    (ran : applySnapshotRestrictions peer snap s = .ok next) : Backed published next := by
  refine applySnapshotRestrictions_invariant ?_ ?_ ?_ ?_ backed ran
  · intro t q ht
    obtain ⟨quarantine, heq⟩ := importQuarantine_eq t q
    rw [heq]
    exact ht.of_tables rfl rfl rfl
  · intro t c hmem ht
    unfold importConflict importConflictTx
    split
    · exact ht
    · refine Backed.sync ?_ _ _
      split
      · exact ht
      · exact ht.append (hsnap.conflicts c hmem).1 (hsnap.conflicts c hmem).2
  · intro t r hmem ht
    unfold importResolution
    split
    · exact ht
    · exact ht.record (hsnap.resolutions r hmem) _ _ _
  · exact fun t tokens ht => ht.of_tables rfl rfl rfl

theorem Backed.snapshot (site uuid : String) :
    SnapshotBacked published (handleSnapshot site uuid s) := by
  refine ⟨?_, ?_, ?_⟩
  · intro p hmem
    obtain ⟨⟨key, row⟩, hrow, rfl⟩ := List.mem_map.mp hmem
    exact backed.rows key row ((Table.mem_rows_iff _ _ _).mp hrow)
  · intro c hmem
    obtain ⟨row, hrow, rfl⟩ := List.mem_map.mp hmem
    exact backed.sides row (List.mem_of_mem_filter hrow)
  · intro r hmem
    obtain ⟨⟨key, row⟩, hrow, rfl⟩ := List.mem_map.mp hmem
    exact backed.decisions key row ((Table.mem_rows_iff _ _ _).mp hrow)

end

theorem Backed.resolve (hconsistent : Consistent published) {coord keepSha operator : String}
    {done : Resolved} (backed : Backed published s)
    (hsize : SizeKnown published pg s feed path keepSha)
    (hsite : PublishedBy published feed path keepSha (siteLeft pg s feed path keepSha site))
    (ran : resolveConflict pg site feed path coord keepSha operator clock s = .ok done) :
    Backed published done.state := by
  obtain ⟨side, stamped, hside, hsame, hdone⟩ := resolveConflict_step ran
  have hkeep : side.sha256 = keepSha := conflictSide_sha hside
  have hdata := backed.side hsize hside
  have hrecorded := (backed.of_same hsame).record (r := SideMeta.decision side done.stamp) hdata
    coord operator site
  refine Backed.of_same (hrecorded.applyResolution hconsistent hdata pg ?_ coord) hdone
  simp only [SideMeta.decision, hkeep]
  rw [siteLeft_congr (s := s)]
  · exact hsite
  · exact hsame.hosted
  · exact hsame.conflicts

end Merge

/-! ## Several sites -/

/-- The sites, the publishes made so far and the snapshots served so far. -/
structure Mesh where
  sites : String → SiteState
  published : List Publish
  snapshots : List Snapshot

def Mesh.initial : Mesh where
  sites := fun _ => {}
  published := []
  snapshots := []

inductive MeshOp where
  | work (site : String) (tx : SiteTx)
  | serve (site uuid : String)

def publishesOf (s : SiteState) : SiteTx → List Publish
  | .deliver _ _ e => announcedPublish e
  | .retry _ _ e => announcedPublish e
  | .publish pg site req clock =>
    match insertWithJournal pg site req clock s with
    | .ok ⟨_, _, some _⟩ =>
      [⟨req.feed, req.path, req.sha256, req.size, req.checksums, site⟩]
    | _ => []
  | _ => []

def MeshOp.run : MeshOp → Mesh → Mesh
  | work site tx, m =>
    { m with
      sites := Function.update m.sites site (tx.run (m.sites site))
      published := m.published ++ publishesOf (m.sites site) tx }
  | serve site uuid, m =>
    { m with snapshots := handleSnapshot site uuid (m.sites site) :: m.snapshots }

def OwnSite (e : JournalEntry) : Prop :=
  ∀ p, e.event = .manifestPut (.ok p) → p.site = "" ∨ p.site = e.originSite

/--
What the operations of a mesh are: sites have names, a site imports what another
served, and publishes of one digest of a path agree on size and checksums.
-/
def MeshPremise (m : Mesh) : MeshOp → Prop
  | .work site tx =>
    Consistent (m.published ++ publishesOf (m.sites site) tx) ∧
    match tx with
    | .deliver _ _ e => e.originSite ≠ ""
    | .retry _ _ e => e.originSite ≠ ""
    | .publish _ name _ _ => name ≠ ""
    | .restrict _ snap => snap ∈ m.snapshots
    | .importManifest _ _ name p => ∃ snap ∈ m.snapshots, p ∈ snap.manifests ∧ name = snap.site
    | _ => True
  | .serve _ _ => True

/--
The condition on an operation: whenever a resolution is applied, the site column
it leaves names a publisher of the kept digest, and the kept side has a size.
-/
def KeepsProvenance (m : Mesh) : MeshOp → Prop
  | .work site tx =>
    match tx with
    | .deliver a _ e => OwnSite e ∧
        EventKeepsProvenance (m.published ++ announcedPublish e) a.pg e (m.sites site)
    | .retry a _ e => OwnSite e ∧
        EventKeepsProvenance (m.published ++ announcedPublish e) a.pg e (m.sites site)
    | .importManifest a _ name p =>
      EventKeepsProvenance m.published a.pg (snapshotEntry name p) (m.sites site)
    | .resolve pg name feed path _ keepSha _ _ =>
      SizeKnown m.published pg (m.sites site) feed path keepSha ∧
      PublishedBy m.published feed path keepSha
        (siteLeft pg (m.sites site) feed path keepSha name)
    | _ => True
  | .serve _ _ => True

/-- Every site and every served snapshot is backed, and publishers have names. -/
structure MeshBacked (m : Mesh) : Prop where
  sites : ∀ site, Backed m.published (m.sites site)
  snapshots : ∀ snap ∈ m.snapshots, SnapshotBacked m.published snap
  named : ∀ x ∈ m.published, x.site ≠ ""

theorem MeshBacked.initial : MeshBacked Mesh.initial := by
  refine ⟨fun _ => .empty, ?_, ?_⟩
  · intro snap hmem
    cases hmem
  · intro x hmem
    cases hmem

variable {e : JournalEntry}

theorem OwnSite.announced (hown : OwnSite e) (body : e.event = .manifestPut (.ok p)) :
    putPublish p e ∈ announcedPublish e := by
  have hsite : publishingSite p e = e.originSite := by
    unfold publishingSite
    split
    · rfl
    · rename_i hnonempty
      exact (hown p body).resolve_left hnonempty
  unfold putPublish announcedPublish
  rw [body, hsite]
  exact List.mem_singleton_self _

theorem Backed.foreign {published : List Publish} {peer : String} {s t : SiteState}
    (hconsistent : Consistent (published ++ announcedPublish e)) (hown : OwnSite e)
    (hcond : EventKeepsProvenance (published ++ announcedPublish e) a.pg e s)
    (backed : Backed published s) (step : EventStep a peer e s t) :
    Backed (published ++ announcedPublish e) t := by
  refine (backed.mono (List.subset_append_left _ _)).eventStep hconsistent ?_ hcond step
  intro p body
  exact List.mem_append_right _ (hown.announced body)

theorem named_publishesOf {m : Mesh} {site : String} {tx : SiteTx}
    (hpremise : MeshPremise m (.work site tx)) :
    ∀ x ∈ publishesOf (m.sites site) tx, x.site ≠ "" := by
  have hannounced : ∀ e : JournalEntry, e.originSite ≠ "" →
      ∀ x ∈ announcedPublish e, x.site ≠ "" := by
    intro e hname x hmem
    unfold announcedPublish at hmem
    split at hmem
    · rw [List.mem_singleton.mp hmem]
      exact hname
    · cases hmem
  intro x hmem
  cases tx with
  | deliver a peer e | retry a peer e => exact hannounced e hpremise.2 x hmem
  | publish pg name req clock =>
    simp only [publishesOf] at hmem
    split at hmem
    · rw [List.mem_singleton.mp hmem]
      exact hpremise.2
    · cases hmem
  | restrict | importManifest | finishBootstrap | resolve | quarantine | prune => cases hmem

theorem MeshBacked.work {m : Mesh} (backed : MeshBacked m) {site : String} {tx : SiteTx}
    (hpremise : MeshPremise m (.work site tx)) (hcond : KeepsProvenance m (.work site tx)) :
    Backed (m.published ++ publishesOf (m.sites site) tx) (tx.run (m.sites site)) := by
  have hconsistent := hpremise.1
  have hsite := backed.sites site
  have hmore := hsite.mono (List.subset_append_left m.published (publishesOf (m.sites site) tx))
  cases tx with
  | deliver a peer e =>
    exact hsite.foreign hconsistent hcond.1 hcond.2 (applyOne_step a peer e _)
  | retry a peer e =>
    exact hsite.foreign hconsistent hcond.1 hcond.2 (retryOne_step a peer e _)
  | restrict peer snap =>
    have hsnap := backed.snapshots snap hpremise.2
    exact Fallible.getD_keeps hmore fun next hran =>
      hmore.restrict (hsnap.mono (List.subset_append_left _ _)) hran
  | importManifest a peer name p =>
    simp only [publishesOf, List.append_nil] at hconsistent hmore ⊢
    obtain ⟨snap, hsnap, hp, rfl⟩ := hpremise.2
    have hmanifest := (backed.snapshots snap hsnap).manifests p hp
    refine hsite.eventStep (a := a.withoutEagerFeeds) (e := snapshotEntry snap.site p)
      hconsistent ?_ hcond (importManifest_step a peer snap.site p _)
    intro q body
    cases body
    have hname : p.site ≠ "" := backed.named _ hmanifest
    simp only [putPublish, publishingSite, hname, if_false]
    exact hmanifest
  | finishBootstrap peer snap => exact hmore.of_same (finishBootstrap_same peer snap _)
  | publish pg name req clock =>
    refine Fallible.map_getD_keeps hmore fun done hran => ?_
    refine hmore.publish (insertWithJournal_step hran) ?_
    intro hwritten
    refine List.mem_append_right _ ?_
    obtain ⟨state, stamp, entry⟩ := done
    simp only [publishesOf, hran]
    cases entry with
    | some entry => exact List.mem_singleton_self _
    | none =>
      cases (insertWithJournal_commit hran).1 with
      | unannounced same => exact absurd same hwritten
  | resolve pg name feed path coord keepSha operator clock =>
    simp only [publishesOf, List.append_nil] at hconsistent hmore ⊢
    exact Fallible.map_getD_keeps hsite fun done hran =>
      hsite.resolve hconsistent hcond.1 hcond.2 hran
  | quarantine pg name replicating feed coordinate reason detail active clock =>
    refine Fallible.getD_keeps hmore fun next hran => ?_
    obtain ⟨named, h, stamped, -, hsame, rfl⟩ := handleQuarantine_step hran
    have hstamped := hmore.of_same hsame
    rw [applyQuarantineDecisionTx_eq]
    exact hstamped.of_tables rfl rfl rfl
  | prune keeps => exact hmore.of_tables rfl rfl rfl

theorem MeshBacked.step (m : Mesh) (op : MeshOp) (backed : MeshBacked m)
    (hcond : MeshPremise m op ∧ KeepsProvenance m op) : MeshBacked (op.run m) := by
  cases op with
  | serve site uuid =>
    refine ⟨backed.sites, ?_, backed.named⟩
    intro snap hmem
    rcases List.mem_cons.mp hmem with rfl | hold
    · exact (backed.sites site).snapshot site uuid
    · exact backed.snapshots snap hold
  | work site tx =>
    have hsub := List.subset_append_left m.published (publishesOf (m.sites site) tx)
    refine ⟨?_, fun snap hmem => (backed.snapshots snap hmem).mono hsub, ?_⟩
    · intro other
      simp only [MeshOp.run]
      by_cases heq : other = site
      · subst heq
        rw [Function.update_self]
        exact backed.work hcond.1 hcond.2
      · rw [Function.update_of_ne heq]
        exact (backed.sites other).mono hsub
    · intro x hmem
      rcases List.mem_append.mp hmem with hold | hnew
      · exact backed.named x hold
      · exact named_publishesOf hcond.1 x hnew

/--
In every run of a mesh in which every applied resolution leaves a site that
published the kept digest: every hosted row of every site has the size, the
checksums and the site of one publish of exactly its feed, path and digest.
-/
theorem hosted_row_is_published (ops : List MeshOp)
    (hmeets : Meets MeshOp.run (fun m op => MeshPremise m op ∧ KeepsProvenance m op) ops
      Mesh.initial) (site : String) (key : PathKey) (row : HostedRow)
    (hrow : ((runAll MeshOp.run ops Mesh.initial).sites site).hosted.find key = some row) :
    (⟨key.1, key.2, row.sha256, row.size, row.checksums, row.site⟩ : Publish) ∈
      (runAll MeshOp.run ops Mesh.initial).published :=
  ((invariant_runAll MeshBacked.step MeshBacked.initial hmeets).sites site).rows key row hrow

/-! ## A conflict resolved to either side -/

def resolvedAtNorth (keep : Char) : List MeshOp :=
  [.work "north" (.deliver (lazyApplier "north" 1000) "east" (samplePut "east" 'a' 1000)),
    .work "north" (.deliver (lazyApplier "north" 1000) "west" (samplePut "west" 'b' 1001)),
    .work "north" (.resolve .plain "north" "npm" "pkg/1.tgz" "pkg@1" (digestOf keep) "op"
      ⟨2000, 2000, 2000, 2000⟩)]

theorem ownSite_samplePut (origin : String) (c : Char) (wall : Int) :
    OwnSite (samplePut origin c wall) := by
  intro p body
  cases body
  exact .inl rfl

theorem hosted_row_is_published_winner :
    ∃ row, ((runAll MeshOp.run (resolvedAtNorth 'a') Mesh.initial).sites "north").hosted.find
        ("npm", "pkg/1.tgz") = some row ∧ row.site = "east" ∧
      (⟨"npm", "pkg/1.tgz", row.sha256, row.size, row.checksums, row.site⟩ : Publish) ∈
        (runAll MeshOp.run (resolvedAtNorth 'a') Mesh.initial).published := by
  obtain ⟨row, hrow, hsite⟩ : ∃ row, ((runAll MeshOp.run (resolvedAtNorth 'a')
      Mesh.initial).sites "north").hosted.find ("npm", "pkg/1.tgz") = some row ∧
      row.site = "east" := ⟨_, rfl, rfl⟩
  refine ⟨row, hrow, hsite, hosted_row_is_published (resolvedAtNorth 'a') ?_ "north"
    ("npm", "pkg/1.tgz") row hrow⟩
  refine ⟨⟨⟨?_, ?_⟩, ownSite_samplePut _ _ _, ?_⟩, ⟨⟨?_, ?_⟩, ownSite_samplePut _ _ _, ?_⟩,
    ⟨⟨?_, trivial⟩, ?_, ?_⟩, trivial⟩
  · unfold Consistent
    decide
  · decide
  · intro decision hdecision
    cases hdecision
  · unfold Consistent
    decide
  · decide
  · intro decision hdecision
    cases hdecision
  · unfold Consistent
    decide
  · unfold SizeKnown
    decide
  · unfold PublishedBy
    decide

/-- Resolved to the side that had lost, the row names a site that never published its digest. -/
theorem losing_side_keeps_winner_site :
    (∀ p ∈ [samplePut "east" 'a' 1000, samplePut "west" 'b' 1001], OwnSite p) ∧
    Meets MeshOp.run MeshPremise (resolvedAtNorth 'b') Mesh.initial ∧
    ∃ row, ((runAll MeshOp.run (resolvedAtNorth 'b') Mesh.initial).sites "north").hosted.find
        ("npm", "pkg/1.tgz") = some row ∧ row.sha256 = digestOf 'b' ∧ row.site = "east" ∧
      ¬ PublishedBy (runAll MeshOp.run (resolvedAtNorth 'b') Mesh.initial).published
        "npm" "pkg/1.tgz" row.sha256 row.site := by
  refine ⟨?_, ⟨⟨?_, ?_⟩, ⟨?_, ?_⟩, ⟨?_, trivial⟩, trivial⟩, _, rfl, rfl, rfl, ?_⟩
  · intro e hmem
    rcases List.mem_cons.mp hmem with rfl | hlast
    · exact ownSite_samplePut _ _ _
    · rw [List.mem_singleton.mp hlast]
      exact ownSite_samplePut _ _ _
  · unfold Consistent
    decide
  · decide
  · unfold Consistent
    decide
  · decide
  · unfold Consistent
    decide
  · unfold PublishedBy
    decide

end FondacoFormal.Safety
