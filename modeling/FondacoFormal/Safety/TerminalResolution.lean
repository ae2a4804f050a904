import FondacoFormal.Repl.Site

/-!
# Resolutions are terminal

Once an operator's decision for a path is stored and applied, the path keeps the chosen digest
and has no unresolved conflict, whatever publishes, events, snapshots and retries follow, as
long as no later decision for the path arrives.
-/

namespace FondacoFormal.Safety

open Library Library.Runs State Repl

section Path

variable (feed path : String) (h : HLC) (k : String)

structure Held (s : SiteState) : Prop where
  stored : ∃ r, storedResolution s feed path = some r ∧ r.hlc = h ∧ r.keepSha = k
  row : ∃ row, s.hosted.find (feed, path) = some row ∧ row.sha256 = k

def Closed (s : SiteState) : Prop :=
  ∀ c ∈ s.conflicts, c.onPath feed path = true → c.unresolved = false

/-- The event is not a decision for the path that is ordered after `(h, k)`. -/
def NoLaterDecision (e : JournalEntry) : Prop :=
  ∀ p, e.event = .conflictResolve (.ok p) → p.feed = feed → p.path = path →
    decidedBefore h k e.hlc p.keepSha = false

/-- The snapshot carries no decision for the path that is ordered after `(h, k)`. -/
def NoLaterRecord (snap : Snapshot) : Prop :=
  ∀ r ∈ snap.resolutions, r.feed = feed → r.path = path →
    decidedBefore h k r.hlc r.keepSha = false

end Path

variable {r : Resolution}

section Merge

variable {feed path : String} {h : HLC} {k : String}

variable {s t : SiteState}

theorem Closed.of_conflicts (closed : Closed feed path s) (hconflicts : t.conflicts = s.conflicts) :
    Closed feed path t := by
  unfold Closed
  rw [hconflicts]
  exact closed

/-- Applying a resolution that keeps the digest of the stored one makes its row. -/
theorem held_applyResolution
    (hstored : ∃ stored, storedResolution s feed path = some stored ∧ stored.hlc = h ∧
      stored.keepSha = k) (hkeep : r.keepSha = k) (pg : Postgres) (coord decidedBy : String) :
    Held feed path h k (applyResolutionTx pg feed path coord r decidedBy s) := by
  refine ⟨?_, ?_⟩
  · rw [storedResolution_congr (applyResolutionTx_resolutions _ _ _ _ _ _ _)]
    exact hstored
  · rw [applyResolutionTx_hosted]
    obtain ⟨row, hrow, hsha⟩ := writeResolved_find_self feed path coord r
      (if conflictSideSite pg s feed path r.keepSha = "" then decidedBy
        else conflictSideSite pg s feed path r.keepSha) s
    exact ⟨row, hrow, hsha.trans hkeep⟩

section

variable (held : Held feed path h k s)

include held

theorem Held.decided : storedResolution s feed path ≠ none := by
  obtain ⟨r, hr, -⟩ := held.stored
  rw [hr]
  simp

theorem Held.of_other (hresolutions : t.resolutions = s.resolutions)
    (hfind : t.hosted.find (feed, path) = s.hosted.find (feed, path)) : Held feed path h k t := by
  obtain ⟨stored, row⟩ := held
  refine ⟨?_, ?_⟩
  · rwa [storedResolution_congr hresolutions]
  · rwa [hfind]

theorem Held.of_same (same : SameTables s t) : Held feed path h k t :=
  held.of_other same.resolutions (by rw [same.hosted])

theorem Held.applyResolution {f p : String} (hr : (f, p) = (feed, path) → r.keepSha = k)
    (pg : Postgres) (coord decidedBy : String) :
    Held feed path h k (applyResolutionTx pg f p coord r decidedBy s) := by
  by_cases hkey : (f, p) = (feed, path)
  · have hkeep := hr hkey
    cases hkey
    exact held_applyResolution held.stored hkeep pg coord decidedBy
  · refine held.of_other (applyResolutionTx_resolutions _ _ _ _ _ _ _) ?_
    rw [applyResolutionTx_hosted]
    exact writeResolved_find_of_ne coord r _ s (Ne.symm hkey)

end

theorem Closed.applyResolution (closed : Closed feed path s) (pg : Postgres) (f p coord : String)
    (r : Resolution) (decidedBy : String) :
    Closed feed path (applyResolutionTx pg f p coord r decidedBy s) := by
  intro c hmem hpath
  rw [applyResolutionTx_conflicts] at hmem
  rcases closeConflicts_mem hmem with hclosed | hold
  · exact hclosed
  · exact closed c hold hpath

theorem closed_applyResolution (pg : Postgres) (coord : String) (r : Resolution)
    (decidedBy : String) (s : SiteState) :
    Closed feed path (applyResolutionTx pg feed path coord r decidedBy s) := by
  intro c hmem hpath
  rw [applyResolutionTx_conflicts] at hmem
  exact closeConflicts_closed hmem hpath

variable {e : JournalEntry} {after : SiteState} {peer : String} {a : Applier}

variable (held : Held feed path h k s) (hmerged : Merged a peer e s after)

include held hmerged

theorem Held.merge (hlater : NoLaterDecision feed path h k e) : Held feed path h k after := by
  -- A publish that was not merged into a decision is for another path.
  have hother : ∀ {p : ManifestPut}, storedResolution s p.feed p.path = none →
      (feed, path) ≠ (p.feed, p.path) := by
    intro p undecided hkey
    cases hkey
    exact held.decided undecided
  cases hmerged with
  | @resolved p decision body _ _ stored =>
    obtain ⟨hhosted, hresolutions, -⟩ := fileRejected_spec e p decision s
    unfold mergeResolved
    refine (held.of_other hresolutions (by rw [hhosted])).applyResolution ?_ a.pg _ _
    intro hkey
    cases hkey
    obtain ⟨r, hr, -, hkeep⟩ := held.stored
    rw [stored] at hr
    cases hr
    exact hkeep
  | inserted _ _ _ undecided _ =>
    exact held.of_other rfl (Table.find_insertNew_of_ne _ _ (hother undecided))
  | newer _ _ _ undecided _ _ _ =>
    exact held.of_other rfl (Table.find_modify_of_ne _ _ (hother undecided))
  | older | repeated => exact held
  | conflicted _ _ _ undecided present _ differs =>
    obtain ⟨_, _, _, _, hafter, -, -, -, hothers, -⟩ := mergeConflict_spec e present differs
    rw [hafter]
    exact held.of_other rfl (hothers _ (hother undecided))
  | noticed => exact held
  | fetched => exact held.of_other rfl rfl
  | revoked _ _ ran =>
    obtain ⟨tokens, rfl⟩ := revokeToken_tokens ran
    exact held.of_other rfl rfl
  | blocked | released => exact held.of_other rfl rfl
  | @decided p side body _ recorded =>
    unfold mergeDecision
    dsimp only
    by_cases hkey : (feed, path) = (p.feed, p.path)
    · cases hkey
      obtain ⟨r, hr, hhlc, hkeep⟩ := held.stored
      -- The stored decision is not ordered before the event's, so it stays.
      have hkept : decidedBefore r.hlc r.keepSha (SideMeta.decision side e.hlc).hlc
          (SideMeta.decision side e.hlc).keepSha = false := by
        have hside : side.sha256 = p.keepSha := conflictSide_sha recorded
        simp only [SideMeta.decision, hhlc, hkeep, hside]
        exact hlater p body rfl rfl
      have hstored := storedResolution_recordResolution_kept p.coord p.operator e.originSite
        hr hkept
      have hrecorded : Held p.feed p.path h k (recordResolution p.feed p.path p.coord
          (SideMeta.decision side e.hlc) p.operator e.originSite s) :=
        ⟨⟨r, hstored, hhlc, hkeep⟩, held.row⟩
      rw [hstored]
      exact hrecorded.applyResolution (fun _ => hkeep) a.pg _ _
    · have hstored := storedResolution_recordResolution_of_ne p.coord
        (SideMeta.decision side e.hlc) p.operator e.originSite s hkey
      have hrecorded : Held feed path h k (recordResolution p.feed p.path p.coord
          (SideMeta.decision side e.hlc) p.operator e.originSite s) :=
        ⟨by rw [hstored]; exact held.stored, held.row⟩
      exact hrecorded.applyResolution (fun hsame => absurd hsame.symm hkey) a.pg _ _

theorem Closed.merge (closed : Closed feed path s) : Closed feed path after := by
  cases hmerged with
  | @resolved p decision body _ _ stored =>
    obtain ⟨-, -, -, hold⟩ := fileRejected_spec e p decision s
    unfold mergeResolved
    refine Closed.applyResolution ?_ a.pg _ _ _ _ _
    intro c hmem hpath
    rcases hold c hmem with hclosed | hmem
    · exact hclosed
    · exact closed c hmem hpath
  | inserted | newer => exact closed.of_conflicts rfl
  | older | repeated => exact closed
  | conflicted _ _ _ undecided present _ differs =>
    obtain ⟨_, _, _, new, hafter, -, -, -, -, hnew, -⟩ := mergeConflict_spec e present differs
    rw [hafter]
    intro c hmem hpath
    rcases List.mem_append.mp hmem with hold | hlast
    · exact closed c hold hpath
    · -- The new conflict is for a path without a decision.
      rw [List.mem_singleton.mp hlast] at hpath
      obtain ⟨rfl, rfl⟩ := ConflictRow.onPath_iff.mp hpath
      obtain ⟨hfeed, hpath⟩ := ConflictRow.onPath_iff.mp hnew
      rw [← hfeed, ← hpath] at undecided
      exact absurd undecided held.decided
  | noticed => exact closed
  | fetched => exact closed.of_conflicts rfl
  | revoked _ _ ran =>
    obtain ⟨tokens, rfl⟩ := revokeToken_tokens ran
    exact closed.of_conflicts rfl
  | blocked | released => exact closed.of_conflicts rfl
  | decided =>
    unfold mergeDecision
    refine Closed.applyResolution ?_ a.pg _ _ _ _ _
    exact closed.of_conflicts rfl

theorem closed_of_merged_put {p : ManifestPut} (body : e.event = .manifestPut (.ok p))
    (hfeed : p.feed = feed) (hpath : p.path = path) : Closed feed path after := by
  subst hfeed hpath
  obtain ⟨decision, hstored, -⟩ := held.stored
  rw [hmerged.of_decided_put body hstored]
  exact closed_applyResolution a.pg _ _ _ (fileRejected e p decision s)

end Merge

/-! ## Calls -/

/-- The call brings no decision for the path ordered after `(h, k)`; a bootstrap completes. -/
def NoLaterCall (feed path : String) (h : HLC) (k : String) (s : SiteState) : SiteCall → Prop
  | .publish _ _ _ _ => True
  | .applyBatch _ _ entries => ∀ e ∈ entries, NoLaterDecision feed path h k e
  | .retryParked _ peer _ =>
    ∀ row ∈ parkedEvents s peer 100, NoLaterDecision feed path h k row.entry
  | .bootstrap a peer snap =>
    (Repl.bootstrap a peer snap s).fault = none ∧ NoLaterRecord feed path h k snap

/--
No publish rewrites the path's row as a mutable one, and a snapshot with an open
conflict of the path also has its manifest.
-/
def KeepsDecision (feed path : String) (s : SiteState) : SiteCall → Prop
  | .publish _ _ req _ => req.feed = feed → req.path = path → req.mutable = true →
      ∀ row, s.hosted.find (feed, path) = some row → row.mutable = false
  | .applyBatch _ _ _ => True
  | .retryParked _ _ _ => True
  | .bootstrap _ _ snap => (∃ c ∈ snap.conflicts, c.feed = feed ∧ c.path = path) →
      ∃ p ∈ snap.manifests, p.feed = feed ∧ p.path = path

variable {s : SiteState} {site : String} {e : JournalEntry}

section Call

variable {feed path : String} {h : HLC} {k : String}

variable {a : Applier} {peer : String}

theorem Held.eventStep {s t : SiteState} (held : Held feed path h k s)
    (hlater : NoLaterDecision feed path h k e) (step : EventStep a peer e s t) :
    Held feed path h k t := by
  cases step with
  | kept same => exact held.of_same same
  | merged before merge rest => exact ((held.of_same before).merge merge hlater).of_same rest

theorem Closed.eventStep {s t : SiteState} (closed : Closed feed path s)
    (held : Held feed path h k s) (step : EventStep a peer e s t) : Closed feed path t := by
  cases step with
  | kept same => exact closed.of_conflicts same.conflicts
  | merged before merge rest =>
    have hbefore := closed.of_conflicts before.conflicts
    exact (hbefore.merge (held.of_same before) merge).of_conflicts rest.conflicts

theorem settled_runAll {txs : List SiteTx}
    (hevents : ∀ tx ∈ txs, ∃ a peer e, NoLaterDecision feed path h k e ∧
      (tx = .deliver a peer e ∨ tx = .retry a peer e)) (held : Held feed path h k s)
    (closed : Closed feed path s) :
    Held feed path h k (runAll SiteTx.run txs s) ∧ Closed feed path (runAll SiteTx.run txs s) := by
  induction txs generalizing s with
  | nil => exact ⟨held, closed⟩
  | cons tx rest ih =>
    obtain ⟨a, peer, e, hlater, htx⟩ := hevents tx List.mem_cons_self
    have hstep : EventStep a peer e s (tx.run s) := by
      rcases htx with rfl | rfl
      · exact applyOne_step a peer e s
      · exact retryOne_step a peer e s
    exact ih (fun other hmem => hevents other (List.mem_cons_of_mem _ hmem))
      (held.eventStep hlater hstep) (closed.eventStep held hstep)

theorem Held.publish {req : PublishRequest} {s t : SiteState} (held : Held feed path h k s)
    (hcond : req.feed = feed → req.path = path →
      req.mutable = true → ∀ row, s.hosted.find (feed, path) = some row → row.mutable = false)
    (step : PublishStep site req s t) : Held feed path h k t := by
  cases step with
  | kept same => exact held.of_same same
  | written h row =>
    cases row with
    | created absent written =>
      refine Held.of_same ?_ written
      refine held.of_other rfl (Table.find_put_of_ne _ _ ?_)
      intro hkey
      obtain ⟨row, hrow, -⟩ := held.row
      rw [hkey, absent] at hrow
      cases hrow
    | @republished existing present mutables differs written =>
      refine Held.of_same ?_ written
      refine held.of_other rfl (Table.find_put_of_ne _ _ ?_)
      intro hkey
      have hfeed : feed = req.feed := congrArg Prod.fst hkey
      have hpath : path = req.path := congrArg Prod.snd hkey
      have himmutable := hcond hfeed.symm hpath.symm mutables.2 existing (by rw [hkey, present])
      rw [mutables.1] at himmutable
      cases himmutable

/-! ## Snapshots -/

theorem Held.importResolution {r : ResolutionRecord} (held : Held feed path h k s)
    (hlater : r.feed = feed → r.path = path → decidedBefore h k r.hlc r.keepSha = false)
    (peer : String) : Held feed path h k (importResolution peer s r) := by
  unfold Repl.importResolution
  split
  · exact held
  · by_cases hkey : (feed, path) = (r.feed, r.path)
    · cases hkey
      obtain ⟨stored, hstored, hhlc, hkeep⟩ := held.stored
      have hkept : decidedBefore stored.hlc stored.keepSha r.hlc r.keepSha = false := by
        rw [hhlc, hkeep]
        exact hlater rfl rfl
      exact ⟨⟨stored, storedResolution_recordResolution_kept _ _ _ hstored hkept, hhlc, hkeep⟩,
        held.row⟩
    · refine ⟨?_, held.row⟩
      rw [storedResolution_recordResolution_of_ne _ _ _ _ s hkey]
      exact held.stored

variable {snap : Snapshot}

theorem Held.restrict {s next : SiteState} (held : Held feed path h k s)
    (hlater : NoLaterRecord feed path h k snap)
    (ran : applySnapshotRestrictions peer snap s = .ok next) : Held feed path h k next := by
  refine applySnapshotRestrictions_invariant ?_ ?_
    (fun t r hmem ht => ht.importResolution (hlater r hmem) peer)
    (fun t tokens ht => ht.of_other rfl rfl) held ran
  · intro t q ht
    obtain ⟨quarantine, heq⟩ := importQuarantine_eq t q
    rw [heq]
    exact ht.of_other rfl rfl
  · intro t c _ ht
    obtain ⟨quarantine, conflicts, heq, -⟩ := importConflict_eq t c
    rw [heq]
    exact ht.of_other rfl rfl

/-- Restrictions open no conflict of a path the snapshot has no open conflict for. -/
theorem Closed.restrict {s next : SiteState} (closed : Closed feed path s)
    (hnone : ∀ c ∈ snap.conflicts, ¬ (c.feed = feed ∧ c.path = path))
    (ran : applySnapshotRestrictions peer snap s = .ok next) : Closed feed path next := by
  refine applySnapshotRestrictions_invariant ?_ ?_ ?_ (fun t tokens ht => ht.of_conflicts rfl)
    closed ran
  · intro t q ht
    obtain ⟨quarantine, heq⟩ := importQuarantine_eq t q
    rw [heq]
    exact ht.of_conflicts rfl
  · intro t c hmem ht
    obtain ⟨quarantine, conflicts, heq, hold⟩ := importConflict_eq t c
    rw [heq]
    intro row hrow hpath
    rcases hold row hrow with rfl | hrow
    · exact absurd (ConflictRow.onPath_iff.mp hpath) (hnone c hmem)
    · exact ht row hrow hpath
  · intro t r _ ht
    obtain ⟨resolutions, heq⟩ := importResolution_eq peer t r
    rw [heq]
    exact ht.of_conflicts rfl

theorem noLaterDecision_snapshotEntry (site : String) (p : ManifestPut) :
    NoLaterDecision feed path h k (snapshotEntry site p) := by
  intro r hbody
  cases hbody

/-- Importing every manifest keeps the decision, and closes the path if it is among them. -/
theorem settled_importManifests {manifests : List ManifestPut} (held : Held feed path h k s)
    (hclosed : Closed feed path s ∨ ∃ p ∈ manifests, p.feed = feed ∧ p.path = path)
    (hdone : (importManifests a peer site manifests s).fault = none) :
    Held feed path h k (importManifests a peer site manifests s).state ∧
      Closed feed path (importManifests a peer site manifests s).state := by
  induction manifests generalizing s with
  | nil =>
    refine ⟨held, ?_⟩
    rcases hclosed with closed | ⟨p, hmem, -⟩
    · exact closed
    · cases hmem
  | cons p rest ih =>
    unfold importManifests at hdone ⊢
    obtain ⟨hfirst, hrest, hstate⟩ := Outcome.andThen_completed hdone
    rw [hstate]
    have hstep := importManifest_step a peer site p s
    have hheld := held.eventStep (noLaterDecision_snapshotEntry site p) hstep
    refine ih hheld ?_ hrest
    rcases hclosed with closed | ⟨q, hmem, hfeed, hpath⟩
    · exact .inl (closed.eventStep held hstep)
    · rcases List.mem_cons.mp hmem with rfl | hmem
      · obtain ⟨blobs, hmerged⟩ := importManifest_completed hfirst
        have hsame : SameTables s { s with blobs := blobs } := ⟨rfl, rfl, rfl, rfl, rfl⟩
        exact .inl (closed_of_merged_put (held.of_same hsame) hmerged rfl hfeed hpath)
      · exact .inr ⟨q, hmem, hfeed, hpath⟩

theorem settled_bootstrap (held : Held feed path h k s) (closed : Closed feed path s)
    (hdone : (bootstrap a peer snap s).fault = none) (hlater : NoLaterRecord feed path h k snap)
    (hmanifest : (∃ c ∈ snap.conflicts, c.feed = feed ∧ c.path = path) →
      ∃ p ∈ snap.manifests, p.feed = feed ∧ p.path = path) :
    Held feed path h k (bootstrap a peer snap s).state ∧
      Closed feed path (bootstrap a peer snap s).state := by
  unfold bootstrap at hdone ⊢
  split at hdone
  · cases hdone
  · rename_i hsite
    rw [if_neg hsite]
    cases hran : applySnapshotRestrictions peer snap s with
    | error cause =>
      rw [hran] at hdone
      cases hdone
    | ok restricted =>
      simp only [hran] at hdone
      dsimp only
      obtain ⟨hmanifests, -, hstate⟩ := Outcome.andThen_completed hdone
      rw [hstate]
      have hheld := held.restrict hlater hran
      have hclosed : Closed feed path restricted ∨
          ∃ p ∈ snap.manifests, p.feed = feed ∧ p.path = path := by
        by_cases hopen : ∃ c ∈ snap.conflicts, c.feed = feed ∧ c.path = path
        · exact .inr (hmanifest hopen)
        · refine .inl (closed.restrict ?_ hran)
          intro c hmem hon
          exact hopen ⟨c, hmem, hon⟩
      obtain ⟨himported, hclosed⟩ := settled_importManifests hheld hclosed hmanifests
      have hsame := finishBootstrap_same peer snap
        (importManifests a peer snap.site snap.manifests restricted).state
      exact ⟨himported.of_same hsame, hclosed.of_conflicts hsame.conflicts⟩

/-! ## Runs -/

theorem settled_step (s : SiteState) (call : SiteCall)
    (settled : Held feed path h k s ∧ Closed feed path s)
    (hcond : NoLaterCall feed path h k s call ∧ KeepsDecision feed path s call) :
    Held feed path h k (call.run s) ∧ Closed feed path (call.run s) := by
  obtain ⟨held, closed⟩ := settled
  cases call with
  | publish pg site req clock =>
    simp only [SiteCall.run, SiteTx.run]
    cases hran : insertWithJournal pg site req clock s with
    | error fault => exact ⟨held, closed⟩
    | ok done =>
      have hstep := insertWithJournal_step hran
      exact ⟨held.publish hcond.2 hstep, closed.of_conflicts hstep.conflicts⟩
  | applyBatch a peer entries =>
    obtain ⟨delivered, hsub, hstate⟩ := applyBatch_runs a peer entries s
    simp only [SiteCall.run, hstate]
    refine settled_runAll ?_ held closed
    intro tx hmem
    obtain ⟨e, he, rfl⟩ := List.mem_map.mp hmem
    exact ⟨a, peer, e, hcond.1 e (hsub.subset he), .inl rfl⟩
  | retryParked a peer budget =>
    obtain ⟨attempted, hstart, hstate⟩ := retryAll_runs a peer
      (((parkedEvents s peer 100).map ParkedRow.entry).take budget) s
    simp only [SiteCall.run, Repl.retryParked, hstate]
    refine settled_runAll ?_ held closed
    intro tx hmem
    obtain ⟨e, he, rfl⟩ := List.mem_map.mp hmem
    obtain ⟨row, hrow, rfl⟩ := List.mem_map.mp (List.mem_of_mem_take (hstart.subset he))
    exact ⟨a, peer, row.entry, hcond.1 row hrow, .inr rfl⟩
  | bootstrap a peer snap =>
    obtain ⟨⟨hdone, hlater⟩, hmanifest⟩ := hcond
    exact settled_bootstrap held closed hdone hlater hmanifest

end Call

/-! ## Making the decision -/

/-- A decision `k` for a path, stamped `h`, is applied. -/
inductive Decides (feed path : String) (h : HLC) (k : String) (s t : SiteState) : Prop where
  | operator {pg : Postgres} {site coord operator : String} {clock : TxClock} {done : Resolved}
      (ran : resolveConflict pg site feed path coord k operator clock s = .ok done)
      (stamp : done.stamp = h) (after : t = done.state)
  | event {a : Applier} {peer : String} {e : JournalEntry} {p : ConflictResolve} {effect : Effect}
      (body : e.event = .conflictResolve (.ok p)) (ran : dispatch a peer e s = .ok effect)
      (onFeed : p.feed = feed) (onPath : p.path = path) (keep : p.keepSha = k) (stamp : e.hlc = h)
      (after : t = effect.state)

/-- No decision ordered after `(h, k)` is stored for the path. -/
def NotSuperseded (feed path : String) (h : HLC) (k : String) (s : SiteState) : Prop :=
  ∀ stored, storedResolution s feed path = some stored →
    decidedBefore h k stored.hlc stored.keepSha = false

theorem decidedBefore_antisymm {h other : HLC} {k sha : String}
    (hnot : decidedBefore h k other sha = false) (hnot' : decidedBefore other sha h k = false) :
    other = h ∧ sha = k := by
  simp only [decidedBefore, Bool.or_eq_false_iff, Bool.and_eq_false_iff, decide_eq_false_iff_not,
    not_lt] at hnot hnot'
  have hstamp : other = h := le_antisymm hnot.1 hnot'.1
  subst hstamp
  have hle : sha ≤ k := by simpa using hnot.2
  have hge : k ≤ sha := by simpa using hnot'.2
  exact ⟨rfl, le_antisymm hle hge⟩

theorem recordResolution_stored {feed path : String}
    (hlatest : NotSuperseded feed path r.hlc r.keepSha s) (coord operator decidedBy : String) :
    ∃ stored, storedResolution (recordResolution feed path coord r operator decidedBy s)
      feed path = some stored ∧ stored.hlc = r.hlc ∧ stored.keepSha = r.keepSha := by
  rcases storedResolution_recordResolution_cases feed path coord operator decidedBy r s with
    ⟨hnew, -⟩ | ⟨stored, hstored, hkept, hsame⟩
  · exact ⟨r, hnew, rfl, rfl⟩
  · obtain ⟨hhlc, hkeep⟩ := decidedBefore_antisymm (hlatest stored hstored) hkept
    exact ⟨stored, hsame, hhlc, hkeep⟩

theorem Decides.settled {feed path : String} {h : HLC} {k : String} {s t : SiteState}
    (hdecides : Decides feed path h k s t) (hlatest : NotSuperseded feed path h k s) :
    Held feed path h k t ∧ Closed feed path t := by
  cases hdecides with
  | @operator pg site coord operator clock done ran stamp after =>
    obtain ⟨side, stamped, hside, hsame, hdone⟩ := resolveConflict_step ran
    have hkeep : side.sha256 = k := conflictSide_sha hside
    have hstamped : NotSuperseded feed path (SideMeta.decision side done.stamp).hlc
        (SideMeta.decision side done.stamp).keepSha stamped := by
      intro stored hstored
      rw [storedResolution_congr hsame.resolutions] at hstored
      simpa only [SideMeta.decision, stamp, hkeep] using hlatest stored hstored
    have hrecorded := recordResolution_stored hstamped coord operator site
    rw [stamp] at hrecorded hdone
    rw [show (SideMeta.decision side h).keepSha = k from hkeep] at hrecorded
    have held := held_applyResolution hrecorded
      (show (SideMeta.decision side h).keepSha = k from hkeep) pg coord site
    subst after
    exact ⟨held.of_same hdone,
      (closed_applyResolution pg coord _ site _).of_conflicts hdone.conflicts⟩
  | @event a peer e p effect body ran onFeed onPath keep stamp after =>
    subst onFeed onPath keep stamp
    have hmerged : Merged a peer e s t := after ▸ dispatch_merged ran
    cases hmerged with
    | @decided q side hbody _ recorded =>
      rw [body] at hbody
      cases hbody
      have hkeep : side.sha256 = p.keepSha := conflictSide_sha recorded
      have hlatest' : NotSuperseded p.feed p.path (SideMeta.decision side e.hlc).hlc
          (SideMeta.decision side e.hlc).keepSha s := by
        simpa only [SideMeta.decision, hkeep] using hlatest
      have hrecorded := recordResolution_stored hlatest' p.coord p.operator e.originSite
      obtain ⟨stored, hstored, hhlc, hsha⟩ := hrecorded
      unfold mergeDecision
      dsimp only
      rw [hstored]
      exact ⟨held_applyResolution ⟨stored, hstored, hhlc, hsha.trans hkeep⟩ (hsha.trans hkeep)
        a.pg p.coord e.originSite, closed_applyResolution a.pg p.coord stored e.originSite _⟩
    | resolved hbody | inserted hbody | newer hbody | older hbody | repeated hbody
    | conflicted hbody | noticed hbody | fetched hbody | revoked hbody | blocked hbody
    | released hbody =>
      rw [body] at hbody
      cases hbody

/--
Once a decision that no stored decision supersedes is applied, then after any run
of publishes, batches, retries and completed bootstraps that brings no later
decision for the path, never rewrites its row as a mutable one and never brings
an open conflict of the path without its manifest: the row still has the chosen
digest and no conflict of the path is unresolved.
-/
theorem resolution_terminal (feed path : String) (h : HLC) (k : String) (s t : SiteState)
    (hdecides : Decides feed path h k s t) (hlatest : NotSuperseded feed path h k s)
    (calls : List SiteCall)
    (hmeets : Meets SiteCall.run
      (fun s call => NoLaterCall feed path h k s call ∧ KeepsDecision feed path s call) calls t) :
    (∃ row, (runAll SiteCall.run calls t).hosted.find (feed, path) = some row ∧
      row.sha256 = k) ∧
    ∀ c ∈ (runAll SiteCall.run calls t).conflicts, c.onPath feed path = true →
      c.unresolved = false := by
  obtain ⟨held, closed⟩ := invariant_runAll settled_step (hdecides.settled hlatest) hmeets
  exact ⟨held.row, closed⟩

/-! ## A decision that does not last -/

def flagConflict : SiteState :=
  runAll SiteTx.run [.deliver (lazyApplier "north" 1000) "east" (flaggedPut "east" 'a' 1000 true),
    .deliver (lazyApplier "north" 1000) "west" (flaggedPut "west" 'b' 1001 false)] {}

def mutableRequest : PublishRequest where
  feed := "npm"
  path := "pkg/1.tgz"
  coord := "pkg@1"
  sha256 := digestOf 'c'
  size := 10
  checksums := []
  metadata := none
  mutable := true
  identity := "ci"

def noonClock : TxClock := ⟨2000, 2000, 2000, 2000⟩

theorem resolution_terminal_republished :
    ∃ done, resolveConflict .plain "north" "npm" "pkg/1.tgz" "pkg@1" (digestOf 'b') "op" noonClock
        flagConflict = .ok done ∧
      (∃ row, (runAll SiteCall.run [.applyBatch (lazyApplier "north" 2000) "west"
          [flaggedPut "west" 'b' 1001 false]] done.state).hosted.find ("npm", "pkg/1.tgz") =
          some row ∧ row.sha256 = digestOf 'b') := by
  obtain ⟨done, hran⟩ : ∃ done, resolveConflict .plain "north" "npm" "pkg/1.tgz" "pkg@1"
      (digestOf 'b') "op" noonClock flagConflict = .ok done := ⟨_, rfl⟩
  have hlatest : NotSuperseded "npm" "pkg/1.tgz" done.stamp (digestOf 'b') flagConflict := by
    intro stored hstored
    cases hstored
  refine ⟨done, hran, ?_⟩
  refine (resolution_terminal "npm" "pkg/1.tgz" done.stamp (digestOf 'b') flagConflict done.state
    (.operator hran rfl rfl) hlatest _ ?_).1
  refine ⟨⟨?_, trivial⟩, trivial⟩
  intro e hmem p hbody
  rw [List.mem_singleton.mp hmem] at hbody
  cases hbody

/-- A mutable publish after the decision replaces the chosen digest. -/
theorem mutable_publish_overrides_resolution :
    ∃ done, resolveConflict .plain "north" "npm" "pkg/1.tgz" "pkg@1" (digestOf 'b') "op" noonClock
        flagConflict = .ok done ∧
      Meets SiteCall.run (NoLaterCall "npm" "pkg/1.tgz" done.stamp (digestOf 'b'))
        [.publish .plain "north" mutableRequest noonClock] done.state ∧
      ¬ ((∃ row, (runAll SiteCall.run [.publish .plain "north" mutableRequest noonClock]
            done.state).hosted.find ("npm", "pkg/1.tgz") = some row ∧ row.sha256 = digestOf 'b') ∧
        ∀ c ∈ (runAll SiteCall.run [.publish .plain "north" mutableRequest noonClock]
          done.state).conflicts, c.onPath "npm" "pkg/1.tgz" = true → c.unresolved = false) := by
  refine ⟨_, rfl, ⟨trivial, trivial⟩, ?_⟩
  rintro ⟨⟨row, hrow, hsha⟩, -⟩
  cases hrow
  revert hsha
  decide

end FondacoFormal.Safety
