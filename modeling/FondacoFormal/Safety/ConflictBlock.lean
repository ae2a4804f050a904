import FondacoFormal.Repl.Site

/-!
# The derived conflict block

A coordinate is blocked for `cross_site_conflict` exactly when an unresolved conflict is
recorded for it.
-/

namespace FondacoFormal.Safety

open Library Library.Runs State Repl

def Conflicted (s : SiteState) (feed coord : String) : Prop :=
  ∃ c ∈ s.conflicts, c.blocks feed coord = true

def Derived (s : SiteState) (feed coord : String) : Prop :=
  s.quarantined (feed, coord, crossSiteConflict) = true ↔ Conflicted s feed coord

def ConflictBlocks (s : SiteState) : Prop :=
  ∀ feed coord, Derived s feed coord

def ClosesOwn (s : SiteState) (feed path coord : String) : Prop :=
  ∀ c ∈ s.conflicts, c.onPath feed path = true → c.unresolved = true → c.coordinate = coord

/-- What an event may carry: no derived reason, and the coordinate of the conflicts it closes. -/
def EventKeepsBlocks (s : SiteState) : Event → Prop
  | .manifestPut (.ok p) =>
    storedResolution s p.feed p.path ≠ none → ClosesOwn s p.feed p.path p.coord
  | .quarantineSet (.ok p) => p.reason ≠ crossSiteConflict
  | .quarantineRelease (.ok p) => p.reason ≠ crossSiteConflict
  | .conflictResolve (.ok p) => ClosesOwn s p.feed p.path p.coord
  | _ => True

def KeepsBlocks (s : SiteState) : SiteTx → Prop
  | .deliver _ _ e => EventKeepsBlocks s e.event
  | .retry _ _ e => EventKeepsBlocks s e.event
  | .importManifest _ _ _ p => EventKeepsBlocks s (.manifestPut (.ok p))
  | .resolve _ _ feed path coord _ _ _ => ClosesOwn s feed path coord
  | _ => True

/-! ## Recomputing a block -/

variable {s t : SiteState} {key : QuarantineKey}

theorem quarantined_eq_of_find (hfind : t.quarantine.find key = s.quarantine.find key) :
    t.quarantined key = s.quarantined key := by
  unfold SiteState.quarantined
  rw [hfind]

variable {feed coord : String}

theorem conflicted_iff_count : Conflicted s feed coord ↔ 0 < openConflictCount s feed coord := by
  unfold Conflicted openConflictCount
  rw [List.countP_pos_iff]

theorem sync_self (feed coord : String) (s : SiteState) :
    Derived (syncConflictQuarantineTx feed coord s) feed coord := by
  have hcount : Conflicted (syncConflictQuarantineTx feed coord s) feed coord ↔
      0 < openConflictCount s feed coord := by
    unfold Conflicted
    rw [syncConflictQuarantineTx_conflicts]
    exact conflicted_iff_count
  unfold Derived
  rw [hcount]
  unfold syncConflictQuarantineTx SiteState.quarantined
  dsimp only
  split
  · rename_i hopen
    simp only [Table.find_upsert_self, Option.map_some, Option.getD_some, hopen, iff_true]
    cases s.quarantine.find (feed, coord, crossSiteConflict) <;> rfl
  · rename_i hclosed
    simp only [Table.find_modify_self, hclosed, iff_false]
    cases s.quarantine.find (feed, coord, crossSiteConflict) <;> simp

theorem sync_find_of_ne (s : SiteState) (hne : key ≠ (feed, coord, crossSiteConflict)) :
    (syncConflictQuarantineTx feed coord s).quarantine.find key = s.quarantine.find key := by
  unfold syncConflictQuarantineTx
  dsimp only
  split
  · exact Table.find_upsert_of_ne _ _ _ hne
  · exact Table.find_modify_of_ne _ _ hne

theorem Derived.congr (hderived : Derived s feed coord)
    (hfind : t.quarantine.find (feed, coord, crossSiteConflict) =
      s.quarantine.find (feed, coord, crossSiteConflict))
    (hconflicts : Conflicted t feed coord ↔ Conflicted s feed coord) : Derived t feed coord := by
  unfold Derived
  rw [quarantined_eq_of_find hfind, hconflicts]
  exact hderived

theorem sync_restores (hothers : ∀ f c, (f, c) ≠ (feed, coord) → Derived s f c) :
    ConflictBlocks (syncConflictQuarantineTx feed coord s) := by
  intro f c
  by_cases heq : (f, c) = (feed, coord)
  · cases heq
    exact sync_self feed coord s
  · have hkey : (f, c, crossSiteConflict) ≠ (feed, coord, crossSiteConflict) := by
      simpa using heq
    refine (hothers f c heq).congr (sync_find_of_ne s hkey) ?_
    unfold Conflicted
    rw [syncConflictQuarantineTx_conflicts]

theorem ConflictBlocks.of_same (inv : ConflictBlocks s) (hquarantine : t.quarantine = s.quarantine)
    (hconflicts : t.conflicts = s.conflicts) : ConflictBlocks t := by
  intro feed coord
  refine (inv feed coord).congr (by rw [hquarantine]) ?_
  unfold Conflicted
  rw [hconflicts]

/-! ## Recording and closing conflicts -/

theorem conflicted_append {row : ConflictRow} :
    Conflicted { s with conflicts := s.conflicts ++ [row] } feed coord ↔
      Conflicted s feed coord ∨ row.blocks feed coord = true := by
  unfold Conflicted
  simp only [List.mem_append, List.mem_singleton, or_and_right, exists_or, exists_eq_left]

theorem ConflictBlocks.record (inv : ConflictBlocks s) (row : ConflictRow) :
    ConflictBlocks (syncConflictQuarantineTx row.feed row.coordinate
      { s with conflicts := s.conflicts ++ [row] }) := by
  refine sync_restores ?_
  intro f c hne
  refine (inv f c).congr rfl ?_
  rw [conflicted_append]
  refine or_iff_left ?_
  intro hblocks
  obtain ⟨hfeed, hcoord, -⟩ := ConflictRow.blocks_iff.mp hblocks
  exact hne (Prod.ext hfeed.symm hcoord.symm)

theorem ConflictBlocks.sync (inv : ConflictBlocks s) (feed coord : String) :
    ConflictBlocks (syncConflictQuarantineTx feed coord s) :=
  sync_restores fun f c _ => inv f c

theorem ConflictBlocks.recordResolved (inv : ConflictBlocks s) (p : ManifestPut)
    (kept rejected : SideMeta) (site : String) :
    ConflictBlocks (recordResolvedConflictTx p kept rejected site s) := by
  unfold recordResolvedConflictTx
  split
  · exact inv
  · intro feed coord
    refine (inv feed coord).congr rfl ?_
    rw [conflicted_append]
    refine or_iff_left ?_
    simp [ConflictRow.blocks, ConflictRow.unresolved]

variable {path : String}

theorem ClosesOwn.recordResolved (hown : ClosesOwn s feed path coord) (p : ManifestPut)
    (kept rejected : SideMeta) (site : String) :
    ClosesOwn (recordResolvedConflictTx p kept rejected site s) feed path coord := by
  unfold recordResolvedConflictTx
  split
  · exact hown
  · intro c hmem hpath hopen
    rcases List.mem_append.mp hmem with hold | hnew
    · exact hown c hold hpath hopen
    · rw [List.mem_singleton.mp hnew] at hopen
      cases hopen

theorem conflicted_close {keepSha f c : String} (hown : ClosesOwn s feed path coord)
    (hne : (f, c) ≠ (feed, coord)) :
    Conflicted (closeConflicts feed path keepSha s) f c ↔ Conflicted s f c := by
  -- A row of another coordinate is not one the update touches.
  have huntouched : ∀ row ∈ s.conflicts, row.blocks f c = true →
      (row.onPath feed path && row.unresolved) = false := by
    intro row hmem hblocks
    rw [Bool.eq_false_iff]
    intro htouched
    rw [Bool.and_eq_true] at htouched
    have hcoord := hown row hmem htouched.1 htouched.2
    obtain ⟨hfeed, hblocked, -⟩ := ConflictRow.blocks_iff.mp hblocks
    obtain ⟨hpath, -⟩ := ConflictRow.onPath_iff.mp htouched.1
    exact hne (Prod.ext (hfeed.symm.trans hpath) (hblocked.symm.trans hcoord))
  unfold Conflicted closeConflicts
  simp only [List.mem_map]
  constructor
  · rintro ⟨_, ⟨row, hmem, rfl⟩, hblocks⟩
    split at hblocks
    · simp [ConflictRow.blocks, ConflictRow.unresolved] at hblocks
    · exact ⟨row, hmem, hblocks⟩
  · rintro ⟨row, hmem, hblocks⟩
    refine ⟨row, ⟨row, hmem, ?_⟩, hblocks⟩
    rw [huntouched row hmem hblocks]
    rfl

section

variable (inv : ConflictBlocks s)

include inv

/-- Applying a resolution keeps the invariant if it names the coordinate it closes. -/
theorem ConflictBlocks.resolve (hown : ClosesOwn s feed path coord) (pg : Postgres)
    (r : Resolution) (decidedBy : String) :
    ConflictBlocks (applyResolutionTx pg feed path coord r decidedBy s) := by
  unfold applyResolutionTx
  refine sync_restores ?_
  intro f c hne
  refine (inv f c).congr rfl ?_
  exact conflicted_close (s := writeResolved feed path coord r _ s) hown hne

/-! ## Registers of other reasons -/

theorem ConflictBlocks.quarantineDecision {reason : String} (hreason : reason ≠ crossSiteConflict)
    (feed coord detail : String) (active : Bool) (hlc : HLC) :
    ConflictBlocks (applyQuarantineDecisionTx feed coord reason detail active hlc s) := by
  intro f c
  have hkey : (f, c, crossSiteConflict) ≠ (feed, coord, reason) := by
    intro hsame
    simp only [Prod.mk.injEq] at hsame
    exact hreason hsame.2.2.symm
  refine (inv f c).congr ?_ ?_
  · unfold applyQuarantineDecisionTx
    split <;> exact Table.find_upsert_of_ne _ _ _ hkey
  · unfold Conflicted
    rw [applyQuarantineDecisionTx_eq]

/-! ## One unit of work -/

theorem ConflictBlocks.mergeConflict (e : JournalEntry) (p : ManifestPut) (existing : HostedRow) :
    ConflictBlocks (mergeConflict e p existing s).state := by
  unfold Repl.mergeConflict
  dsimp only
  refine ConflictBlocks.record ?_ ⟨p.feed, p.path, p.coord, _, _, _, _, _, _, none⟩
  split_ifs <;> exact inv.of_same rfl rfl

theorem ConflictBlocks.mergeResolved (pg : Postgres) (e : JournalEntry) {p : ManifestPut}
    (decision : Resolution) (hown : ClosesOwn s p.feed p.path p.coord) :
    ConflictBlocks (mergeResolved pg e p decision s).state := by
  unfold Repl.mergeResolved fileRejected
  dsimp only
  split
  · exact inv.resolve hown pg decision e.originSite
  · refine ConflictBlocks.resolve ?_ ?_ pg decision e.originSite
    · exact (inv.recordResolved p _ _ _).sync p.feed p.coord
    · unfold ClosesOwn
      rw [syncConflictQuarantineTx_conflicts]
      exact hown.recordResolved p _ _ _

variable {peer : String}

theorem ConflictBlocks.merge {a : Applier} {e : JournalEntry} {after : SiteState}
    (hcond : EventKeepsBlocks s e.event) (hmerged : Merged a peer e s after) :
    ConflictBlocks after := by
  cases hmerged with
  | resolved body _ _ stored =>
    rw [body] at hcond
    exact inv.mergeResolved a.pg e _ (hcond (by rw [stored]; simp))
  | inserted | newer | fetched => exact inv.of_same rfl rfl
  | older | repeated | noticed => exact inv
  | conflicted => exact inv.mergeConflict e _ _
  | revoked _ _ ran =>
    obtain ⟨tokens, rfl⟩ := revokeToken_tokens ran
    exact inv.of_same rfl rfl
  | @blocked p body =>
    rw [body] at hcond
    exact inv.quarantineDecision hcond p.feed p.coordinate p.detail true e.hlc
  | @released p body =>
    rw [body] at hcond
    have hreason : QuarantineRelease.effectiveReason p ≠ crossSiteConflict := by
      unfold QuarantineRelease.effectiveReason
      split
      · decide
      · exact hcond
    exact inv.quarantineDecision hreason p.feed p.coordinate "" false e.hlc
  | @decided p side body _ _ =>
    rw [body] at hcond
    unfold mergeDecision
    have hrecorded : ConflictBlocks (recordResolution p.feed p.path p.coord
        (SideMeta.decision side e.hlc) p.operator e.originSite s) := inv.of_same rfl rfl
    exact hrecorded.resolve hcond a.pg _ e.originSite

end

theorem EventKeepsBlocks.of_same {event : Event} (hcond : EventKeepsBlocks s event)
    (same : SameTables s t) : EventKeepsBlocks t event := by
  have hown : ∀ feed path coord, ClosesOwn s feed path coord → ClosesOwn t feed path coord := by
    intro feed path coord h
    unfold ClosesOwn
    rw [same.conflicts]
    exact h
  unfold EventKeepsBlocks at hcond ⊢
  split
  · intro hdecided
    rw [storedResolution_congr same.resolutions] at hdecided
    exact hown _ _ _ (hcond hdecided)
  · exact hcond
  · exact hcond
  · exact hown _ _ _ hcond
  · trivial

section

variable (inv : ConflictBlocks s)

include inv

theorem ConflictBlocks.eventStep {a : Applier} {e : JournalEntry}
    (hcond : EventKeepsBlocks s e.event) (step : EventStep a peer e s t) : ConflictBlocks t := by
  cases step with
  | kept same => exact inv.of_same same.quarantine same.conflicts
  | merged before merge rest =>
    have hbefore := inv.of_same before.quarantine before.conflicts
    have hafter := hbefore.merge (hcond.of_same before) merge
    exact hafter.of_same rest.quarantine rest.conflicts

theorem ConflictBlocks.publish {site : String} {req : PublishRequest}
    (step : PublishStep site req s t) : ConflictBlocks t := by
  cases step with
  | kept same => exact inv.of_same same.quarantine same.conflicts
  | written h row =>
    cases row with
    | created _ written | republished _ _ _ written =>
      exact inv.of_same written.quarantine written.conflicts

theorem ConflictBlocks.importQuarantine (q : QuarantineRecord) :
    ConflictBlocks (importQuarantine s q) := by
  unfold Repl.importQuarantine
  split
  · exact inv
  · rename_i hkept
    have hreason : q.reason ≠ crossSiteConflict := by
      intro heq
      simp [heq] at hkept
    exact inv.quarantineDecision hreason q.feed q.coordinate q.detail q.active q.hlc

theorem ConflictBlocks.importConflict (c : ConflictRecord) :
    ConflictBlocks (importConflict s c) := by
  unfold Repl.importConflict importConflictTx
  split
  · exact inv
  · dsimp only
    split
    · exact inv.sync c.feed c.coordinate
    · exact inv.record c.row

theorem ConflictBlocks.restrict {snap : Snapshot} {next : SiteState}
    (ran : applySnapshotRestrictions peer snap s = .ok next) : ConflictBlocks next := by
  refine applySnapshotRestrictions_invariant (fun t q ht => ht.importQuarantine q)
    (fun t c _ ht => ht.importConflict c) ?_ (fun t tokens ht => ht.of_same rfl rfl) inv ran
  intro t r _ ht
  obtain ⟨resolutions, heq⟩ := importResolution_eq peer t r
  rw [heq]
  exact ht.of_same rfl rfl

end

theorem ConflictBlocks.step (s : SiteState) (tx : SiteTx) (inv : ConflictBlocks s)
    (hcond : KeepsBlocks s tx) : ConflictBlocks (tx.run s) := by
  cases tx with
  | deliver a peer e => exact inv.eventStep hcond (applyOne_step a peer e s)
  | retry a peer e => exact inv.eventStep hcond (retryOne_step a peer e s)
  | restrict peer snap =>
    exact Fallible.getD_keeps inv fun next hran => inv.restrict hran
  | importManifest a peer site p =>
    exact inv.eventStep (e := snapshotEntry site p) hcond (importManifest_step a peer site p s)
  | finishBootstrap peer snap =>
    have hsame := finishBootstrap_same peer snap s
    exact inv.of_same hsame.quarantine hsame.conflicts
  | publish pg site req clock =>
    exact Fallible.map_getD_keeps inv fun done hran => inv.publish (insertWithJournal_step hran)
  | resolve pg site feed path coord keepSha operator clock =>
    refine Fallible.map_getD_keeps inv fun done hran => ?_
    obtain ⟨side, stamped, -, hsame, hdone⟩ := resolveConflict_step hran
    have hown : ClosesOwn stamped feed path coord := by
      unfold ClosesOwn
      rw [hsame.conflicts]
      exact hcond
    have hstamped := inv.of_same hsame.quarantine hsame.conflicts
    have hrecorded : ConflictBlocks (recordResolution feed path coord
        (SideMeta.decision side done.stamp) operator site stamped) :=
      hstamped.of_same rfl rfl
    have happlied := hrecorded.resolve hown pg (SideMeta.decision side done.stamp) site
    exact happlied.of_same hdone.quarantine hdone.conflicts
  | quarantine pg site replicating feed coordinate reason detail active clock =>
    refine Fallible.getD_keeps inv fun next hran => ?_
    obtain ⟨named, h, stamped, hnamed, hsame, rfl⟩ := handleQuarantine_step hran
    have hstamped := inv.of_same hsame.quarantine hsame.conflicts
    exact hstamped.quarantineDecision hnamed feed coordinate detail active h
  | prune keeps => exact inv.of_same rfl rfl

theorem ConflictBlocks.empty : ConflictBlocks {} := by
  intro feed coord
  simp [Derived, Conflicted, SiteState.quarantined]

/--
In every run of a site, from empty tables, in which no replicated quarantine
event names the derived reason and every resolution names the coordinate of the
conflicts it closes: in every state reached, a coordinate is blocked for
`cross_site_conflict` exactly when an unresolved conflict is recorded for it.
-/
theorem conflict_block_iff_unresolved (txs : List SiteTx)
    (hmeets : Meets SiteTx.run KeepsBlocks txs {}) (feed coord : String) :
    (runAll SiteTx.run txs {}).quarantined (feed, coord, crossSiteConflict) = true ↔
      ∃ c ∈ (runAll SiteTx.run txs {}).conflicts, c.blocks feed coord = true :=
  invariant_runAll ConflictBlocks.step ConflictBlocks.empty hmeets feed coord

def twoPublishes : List SiteTx :=
  [.deliver (lazyApplier "north" 1000) "east" (samplePut "east" 'a' 1000),
    .deliver (lazyApplier "north" 1000) "west" (samplePut "west" 'b' 1001)]

theorem conflict_block_iff_unresolved_twoPublishes :
    Meets SiteTx.run KeepsBlocks twoPublishes {} ∧
      ((runAll SiteTx.run twoPublishes {}).quarantined ("npm", "pkg@1", crossSiteConflict) = true ↔
        ∃ c ∈ (runAll SiteTx.run twoPublishes {}).conflicts, c.blocks "npm" "pkg@1" = true) := by
  have hmeets : Meets SiteTx.run KeepsBlocks twoPublishes {} :=
    ⟨fun hdecided => absurd rfl hdecided, fun hdecided => absurd rfl hdecided, trivial⟩
  exact ⟨hmeets, conflict_block_iff_unresolved twoPublishes hmeets "npm" "pkg@1"⟩

def forgedBlock : JournalEntry :=
  ⟨"east", 1, .quarantineSet (.ok ⟨"npm", "pkg@1", crossSiteConflict, ""⟩), ⟨1000, 0⟩, 1⟩

/-- One applied quarantine event blocks a coordinate that has no conflict. -/
theorem forged_block_breaks_conflict_block :
    ¬ ((runAll SiteTx.run [.deliver (lazyApplier "north" 1000) "east" forgedBlock] {}).quarantined
        ("npm", "pkg@1", crossSiteConflict) = true ↔
      ∃ c ∈ (runAll SiteTx.run [.deliver (lazyApplier "north" 1000) "east" forgedBlock]
        {}).conflicts,
        c.blocks "npm" "pkg@1" = true) := by
  decide

end FondacoFormal.Safety
