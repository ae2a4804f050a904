import FondacoFormal.Convergence.Refinement

/-!
# What an import restores

The tables of a fresh site after the import of a peer's snapshot, table by table:
the registers that have a name, the open conflicts, the decisions, the revocations
and one row for every row of the peer.
-/

namespace FondacoFormal.Convergence

open Library Library.Fallible State Repl Safety

/-! ## Registers -/

def Importable (register : QuarantineKey) : Prop :=
  register.1 ≠ "" ∧ register.2.1 ≠ "" ∧ register.2.2 ≠ "" ∧ register.2.2 ≠ crossSiteConflict
  deriving Decidable

def exportRegister (row : QuarantineKey × QuarantineRow) : QuarantineRecord :=
  ⟨row.1.1, row.1.2.1, row.1.2.2, row.2.detail, row.2.active, row.2.hlc⟩

section Registers

variable {s : SiteState} {register : QuarantineKey}

theorem importQuarantine_find_self {row : QuarantineRow}
    (hfind : (s.quarantine.find register).map verdictOf = none) :
    ((importQuarantine s (exportRegister (register, row))).quarantine.find register).map verdictOf =
      if Importable register then some (verdictOf row) else none := by
  have habsent : s.quarantine.find register = none := Option.map_eq_none_iff.mp hfind
  unfold importQuarantine exportRegister
  split
  · rename_i hskip
    have hnot : ¬ Importable register := by
      intro himportable
      simp [himportable.1, himportable.2.1, himportable.2.2.1, himportable.2.2.2] at hskip
    rw [if_neg hnot]
    exact hfind
  · rename_i htaken
    have himportable : Importable register := by
      simpa [Importable, and_assoc] using htaken
    rw [if_pos himportable]
    unfold applyQuarantineDecisionTx
    cases hactive : row.active with
    | true =>
      simp only [if_true, quarantineTx, Table.find_upsert_self, habsent]
      simp [verdictOf, hactive]
    | false =>
      simp only [Bool.false_eq_true, if_false, releaseQuarantineTx, Table.find_upsert_self,
        habsent]
      simp [verdictOf, hactive]

theorem importQuarantine_find_of_ne {q : QuarantineRecord}
    (hne : register ≠ (q.feed, q.coordinate, q.reason)) :
    (importQuarantine s q).quarantine.find register = s.quarantine.find register := by
  unfold importQuarantine
  split
  · rfl
  · unfold applyQuarantineDecisionTx
    split <;> exact Table.find_upsert_of_ne _ _ _ hne

theorem importQuarantines_eq (records : List QuarantineRecord) (s : SiteState) :
    ∃ quarantine, records.foldl importQuarantine s = { s with quarantine := quarantine } := by
  refine List.foldlRecOn
    (motive := fun t : SiteState => ∃ quarantine, t = { s with quarantine := quarantine }) records _
    ⟨s.quarantine, rfl⟩ ?_
  rintro t ⟨quarantine, rfl⟩ q _
  exact importQuarantine_eq { s with quarantine := quarantine } q

theorem importQuarantines_find (peer uuid : String) (source : SiteState)
    (hempty : s.quarantine = ∅) (register : QuarantineKey) :
    (((handleSnapshot peer uuid source).quarantine.foldl importQuarantine s).quarantine.find
        register).map verdictOf =
      if Importable register then (source.quarantine.find register).map verdictOf else none := by
  have hsnapshot : (handleSnapshot peer uuid source).quarantine =
      source.quarantine.rows.map exportRegister := rfl
  rw [hsnapshot, List.foldl_map]
  have hcopied := Table.foldl_rows (fun t row => importQuarantine t (exportRegister row))
    (fun t register => (t.quarantine.find register).map verdictOf) none
    (fun register row => if Importable register then some (verdictOf row) else none)
    source.quarantine (s := s) (fun t register row _ hblank => importQuarantine_find_self hblank)
    (fun t row register hne => congrArg (Option.map verdictOf) (importQuarantine_find_of_ne hne))
    (fun register => by rw [hempty]; rfl) register
  rw [hcopied]
  cases source.quarantine.find register with
  | none => simp
  | some row => rfl

end Registers

/-! ## Conflicts -/

def ImportableConflict (c : ConflictRecord) : Prop :=
  c.feed ≠ "" ∧ c.path ≠ "" ∧ c.winnerSha.utf8ByteSize = 64 ∧ c.loserSha.utf8ByteSize = 64

def Records (row : ConflictRow) (c : ConflictRecord) : Prop :=
  row.feed = c.feed ∧ row.path = c.path ∧ row.winnerSha = c.winnerSha ∧ row.loserSha = c.loserSha

section Conflicts

variable {s : SiteState} {c : ConflictRecord}

theorem importConflict_conflicts (himportable : ImportableConflict c) :
    (importConflict s c).conflicts = s.conflicts ++ [c.row] ∨
      (importConflict s c).conflicts = s.conflicts ∧ ∃ row ∈ s.conflicts, Records row c := by
  have htaken : ¬ (c.feed = "" || c.path = "" || c.winnerSha.utf8ByteSize ≠ 64 ||
      c.loserSha.utf8ByteSize ≠ 64) = true := by
    simp [himportable.1, himportable.2.1, himportable.2.2.1, himportable.2.2.2]
  unfold importConflict importConflictTx
  rw [if_neg htaken]
  dsimp only
  rw [syncConflictQuarantineTx_conflicts]
  split
  · rename_i hknown
    obtain ⟨row, hmem, hsame⟩ := List.any_eq_true.mp hknown
    simp only [Bool.and_eq_true, decide_eq_true_eq] at hsame
    obtain ⟨hfeed, hpath⟩ := ConflictRow.onPath_iff.mp hsame.1.1
    exact .inr ⟨rfl, row, hmem, hfeed, hpath, hsame.1.2, hsame.2⟩
  · exact .inl rfl

/-- Every conflict of the list has a row afterwards, and every new row is for one of them. -/
theorem importConflicts_conflicts {records : List ConflictRecord}
    (himportable : ∀ c ∈ records, ImportableConflict c) :
    (∀ row ∈ (records.foldl importConflict s).conflicts,
      row ∈ s.conflicts ∨ ∃ c ∈ records, row = c.row) ∧
    s.conflicts ⊆ (records.foldl importConflict s).conflicts ∧
    ∀ c ∈ records, ∃ row ∈ (records.foldl importConflict s).conflicts, Records row c := by
  induction records generalizing s with
  | nil => exact ⟨fun row hmem => .inl hmem, List.Subset.refl _, fun c hmem => nomatch hmem⟩
  | cons first rest ih =>
    obtain ⟨hnew, hkept, hcovered⟩ := ih (s := importConflict s first)
      fun c hmem => himportable c (List.mem_cons_of_mem first hmem)
    rw [List.foldl_cons]
    have hfirst := importConflict_conflicts (s := s) (himportable first List.mem_cons_self)
    have hsub : s.conflicts ⊆ (importConflict s first).conflicts := by
      rcases hfirst with happended | ⟨hsame, -⟩
      · rw [happended]
        exact List.subset_append_left _ _
      · rw [hsame]
        exact List.Subset.refl _
    refine ⟨?_, fun row hold => hkept (hsub hold), ?_⟩
    · intro row hmem
      rcases hnew row hmem with hbefore | ⟨c, hrecord, hrow⟩
      · rcases hfirst with happended | ⟨hsame, -⟩
        · rw [happended] at hbefore
          rcases List.mem_append.mp hbefore with hold | hlast
          · exact .inl hold
          · exact .inr ⟨first, List.mem_cons_self, List.mem_singleton.mp hlast⟩
        · rw [hsame] at hbefore
          exact .inl hbefore
      · exact .inr ⟨c, List.mem_cons_of_mem first hrecord, hrow⟩
    · intro c hmem
      rcases List.mem_cons.mp hmem with rfl | hlater
      · rcases hfirst with happended | ⟨-, row, hold, hrecords⟩
        · refine ⟨c.row, hkept ?_, rfl, rfl, rfl, rfl⟩
          rw [happended]
          exact List.mem_append_right _ (List.mem_singleton_self _)
        · exact ⟨row, hkept (hsub hold), hrecords⟩
      · exact hcovered c hlater

theorem importConflicts_eq (records : List ConflictRecord) (s : SiteState) :
    ∃ quarantine conflicts, records.foldl importConflict s =
        { s with quarantine := quarantine, conflicts := conflicts } ∧
      ∀ register : QuarantineKey, register.2.2 ≠ crossSiteConflict →
        quarantine.find register = s.quarantine.find register := by
  induction records generalizing s with
  | nil => exact ⟨s.quarantine, s.conflicts, rfl, fun _ _ => rfl⟩
  | cons c rest ih =>
    obtain ⟨quarantine, conflicts, hrest, hothers⟩ := ih (importConflict s c)
    obtain ⟨blocks, rows, hfirst, -⟩ := importConflict_eq s c
    refine ⟨quarantine, conflicts, ?_, ?_⟩
    · rw [List.foldl_cons, hrest, hfirst]
    · intro register hreason
      rw [hothers register hreason]
      unfold importConflict importConflictTx
      split
      · rfl
      · dsimp only
        rw [sync_find_other hreason]
        split
        · rfl
        · rfl

end Conflicts

/-! ## Decisions and revocations -/

variable {source : SiteState} {hashes : List String} {peer uuid : String}

section Decisions

variable {s t : SiteState}

def ResolutionRow.decision (row : ResolutionRow) : Resolution :=
  ⟨row.keepSha, row.size, row.checksums, row.metadata, row.hlc⟩

theorem importResolution_stored {peer : String} {key : PathKey} {row : ResolutionRow}
    (hfeed : key.1 ≠ "") (hpath : key.2 ≠ "") (hdigest : row.keepSha.utf8ByteSize = 64)
    (hundecided : storedResolution s key.1 key.2 = none) :
    storedResolution (importResolution peer s (exportResolution key row)) key.1 key.2 =
      some (ResolutionRow.decision row) := by
  unfold importResolution exportResolution
  rw [if_neg (by simp [hfeed, hpath, hdigest])]
  refine storedResolution_recordResolution_new _ _ _ ?_
  intro stored hstored
  rw [hundecided] at hstored
  cases hstored

theorem importResolutions_eq (peer : String) (records : List ResolutionRecord) (s : SiteState) :
    ∃ resolutions, records.foldl (importResolution peer) s =
      { s with resolutions := resolutions } := by
  refine List.foldlRecOn
    (motive := fun t : SiteState => ∃ resolutions, t = { s with resolutions := resolutions })
    records _ ⟨s.resolutions, rfl⟩ ?_
  rintro t ⟨resolutions, rfl⟩ r _
  exact importResolution_eq peer { s with resolutions := resolutions } r

theorem importResolutions_stored (peer uuid : String) (importer : String)
    (hsound : ∀ key row, source.resolutions.find key = some row →
      key.1 ≠ "" ∧ key.2 ≠ "" ∧ row.keepSha.utf8ByteSize = 64) (hempty : s.resolutions = ∅)
    (key : PathKey) :
    storedResolution ((handleSnapshot peer uuid source).resolutions.foldl
        (importResolution importer) s) key.1 key.2 = storedResolution source key.1 key.2 := by
  have hsnapshot : (handleSnapshot peer uuid source).resolutions =
      source.resolutions.rows.map fun row => exportResolution row.1 row.2 := rfl
  rw [hsnapshot, List.foldl_map]
  have hcopied := Table.foldl_rows
    (fun t row => importResolution importer t (exportResolution row.1 row.2))
    (fun t key => storedResolution t key.1 key.2) none
    (fun _ row => some (ResolutionRow.decision row)) source.resolutions (s := s)
    (fun t key row hfind hblank => importResolution_stored (hsound key row hfind).1
      (hsound key row hfind).2.1 (hsound key row hfind).2.2 hblank)
    (fun t row key hne => by
      unfold importResolution
      split
      · rfl
      · exact storedResolution_recordResolution_of_ne _ _ _ _ _ hne)
    (fun key => by unfold storedResolution; rw [hempty]; rfl) key
  rw [hcopied]
  unfold storedResolution
  cases source.resolutions.find key <;> rfl

theorem importRevocations_revoked (hsound : ∀ hash ∈ hashes, hash.utf8ByteSize = 64)
    (ran : hashes.foldlM importRevocation s = .ok t) (other : String) :
    t.revoked other = true ↔ other ∈ hashes ∨ s.revoked other = true := by
  induction hashes generalizing s with
  | nil =>
    cases ran
    simp
  | cons hash rest ih =>
    rw [List.foldlM_cons] at ran
    obtain ⟨next, hfirst, hrest⟩ := bind_eq_ok.mp ran
    rw [ih (fun hash hmem => hsound hash (List.mem_cons_of_mem _ hmem)) hrest]
    unfold importRevocation at hfirst
    rw [if_neg (not_not.mpr (hsound hash List.mem_cons_self))] at hfirst
    rw [revokeToken_revoked hfirst, List.mem_cons]
    tauto

theorem importRevocations_eq (ran : hashes.foldlM importRevocation s = .ok t) :
    t = { s with tokens := t.tokens } := by
  refine foldlM_invariant (fun u => u = { s with tokens := u.tokens }) ?_ rfl ran
  intro u hash next hu hran
  obtain ⟨tokens, hnext⟩ := importRevocation_ok hran
  rw [hnext, hu]

theorem mem_snapshot_revoked {hash : String} :
    hash ∈ (handleSnapshot peer uuid source).revoked ↔ source.revoked hash = true := by
  have hsnapshot : (handleSnapshot peer uuid source).revoked =
      (source.tokens.rows.filter fun row => row.2.revoked).map Prod.fst := rfl
  rw [hsnapshot, List.mem_map]
  unfold SiteState.revoked
  constructor
  · rintro ⟨⟨key, row⟩, hmem, rfl⟩
    obtain ⟨hrow, hrevoked⟩ := List.mem_filter.mp hmem
    rw [(Table.mem_rows_iff _ _ _).mp hrow]
    exact hrevoked
  · intro hrevoked
    cases hfind : source.tokens.find hash with
    | none =>
      rw [hfind] at hrevoked
      cases hrevoked
    | some row =>
      rw [hfind] at hrevoked
      refine ⟨(hash, row), List.mem_filter.mpr ⟨?_, hrevoked⟩, rfl⟩
      exact (Table.mem_rows_iff _ _ _).mpr hfind

end Decisions

/-! ## Restrictions -/

/-- What the rows of a site look like to an import: no check of it skips one. -/
structure Exportable (source : SiteState) : Prop where
  decided : ∀ (key : PathKey) r, storedResolution source key.1 key.2 = some r →
    (∀ row, source.hosted.find key = some row → row.sha256 = r.keepSha ∧ row.mutable = false) ∧
      ∀ c ∈ source.conflicts, c.onPath key.1 key.2 = true → c.unresolved = false
  conflicts : ∀ c ∈ source.conflicts, ImportableConflict (exportConflict c)
  decisions : ∀ key row, source.resolutions.find key = some row →
    key.1 ≠ "" ∧ key.2 ≠ "" ∧ row.keepSha.utf8ByteSize = 64
  revocations : ∀ hash, source.revoked hash = true → hash.utf8ByteSize = 64

/-- All that a snapshot holds besides its manifests. -/
structure Imported (source t : SiteState) : Prop where
  journal : t.journal = ∅
  parked : t.parked = []
  registers : ∀ register : QuarantineKey, register.2.2 ≠ crossSiteConflict →
    (t.quarantine.find register).map verdictOf =
      if Importable register then (source.quarantine.find register).map verdictOf else none
  conflicts : ∀ row ∈ t.conflicts, ∃ c ∈ source.conflicts,
    c.unresolved = true ∧ row = (exportConflict c).row
  covered : ∀ c ∈ source.conflicts, c.unresolved = true →
    ∃ row ∈ t.conflicts, Records row (exportConflict c)
  stored : ∀ key : PathKey, storedResolution t key.1 key.2 = storedResolution source key.1 key.2
  revocations : ∀ hash, t.revoked hash = source.revoked hash
  blocks : ConflictBlocks t

structure Restricted (source t : SiteState) : Prop extends Imported source t where
  hosted : t.hosted = ∅

theorem mem_snapshot_conflicts {c : ConflictRecord} :
    c ∈ (handleSnapshot peer uuid source).conflicts ↔
      ∃ row ∈ source.conflicts, row.unresolved = true ∧ exportConflict row = c := by
  have hsnapshot : (handleSnapshot peer uuid source).conflicts =
      (source.conflicts.filter ConflictRow.unresolved).map exportConflict := rfl
  rw [hsnapshot, List.mem_map]
  exact exists_congr fun row => by rw [List.mem_filter, and_assoc]

variable {bytes : Finset String}

theorem applySnapshotRestrictions_restricted {site peer uuid : String} {source t : SiteState}
    (exportable : Exportable source)
    (ran : applySnapshotRestrictions peer (handleSnapshot site uuid source) { blobs := bytes } =
      .ok t) : Restricted source t := by
  have hblocks : ConflictBlocks t :=
    (ConflictBlocks.empty.of_same (t := { blobs := bytes }) rfl rfl).restrict ran
  have hregisters := importQuarantines_find (s := { blobs := bytes }) site uuid source rfl
  unfold applySnapshotRestrictions at ran
  -- The four loops, each seen from the tables it leaves alone.
  dsimp only at ran
  obtain ⟨quarantine, hfirst⟩ := importQuarantines_eq
    (handleSnapshot site uuid source).quarantine { blobs := bytes }
  rw [hfirst] at ran hregisters
  have himportable : ∀ c ∈ (handleSnapshot site uuid source).conflicts, ImportableConflict c := by
    intro c hmem
    obtain ⟨row, hrow, -, rfl⟩ := mem_snapshot_conflicts.mp hmem
    exact exportable.conflicts row hrow
  obtain ⟨hnew, -, hcovered⟩ := importConflicts_conflicts
    (s := { blobs := bytes, quarantine := quarantine }) himportable
  obtain ⟨blocks, conflicts, hsecond, hothers⟩ := importConflicts_eq
    (handleSnapshot site uuid source).conflicts { blobs := bytes, quarantine := quarantine }
  rw [hsecond] at ran hnew hcovered
  have hdecisions := importResolutions_stored
    (s := { blobs := bytes, quarantine := blocks, conflicts := conflicts }) site uuid peer
    exportable.decisions rfl
  obtain ⟨resolutions, hthird⟩ := importResolutions_eq peer
    (handleSnapshot site uuid source).resolutions
    { blobs := bytes, quarantine := blocks, conflicts := conflicts }
  rw [hthird] at hdecisions ran
  have hrevoked := importRevocations_revoked
    (fun hash hmem => exportable.revocations hash (mem_snapshot_revoked.mp hmem)) ran
  have hlast := importRevocations_eq ran
  have hconflicts : t.conflicts = conflicts := by rw [hlast]
  refine
    { hosted := by rw [hlast]
      journal := by rw [hlast]
      parked := by rw [hlast]
      registers := ?_
      conflicts := ?_
      covered := ?_
      stored := ?_
      revocations := ?_
      blocks := hblocks }
  · intro register hreason
    rw [show t.quarantine = blocks by rw [hlast], hothers register hreason]
    exact hregisters register
  · intro row hmem
    rw [hconflicts] at hmem
    rcases hnew row hmem with hold | ⟨c, hrecord, rfl⟩
    · cases hold
    · obtain ⟨old, hold, hopen, rfl⟩ := mem_snapshot_conflicts.mp hrecord
      exact ⟨old, hold, hopen, rfl⟩
  · intro c hmem hopen
    rw [hconflicts]
    exact hcovered _ (mem_snapshot_conflicts.mpr ⟨c, hmem, hopen, rfl⟩)
  · intro key
    have hstored := hdecisions key
    unfold storedResolution at hstored ⊢
    rw [show t.resolutions = resolutions by rw [hlast]]
    exact hstored
  · intro hash
    rw [Bool.eq_iff_iff, hrevoked hash, mem_snapshot_revoked]
    exact or_iff_left nofun

/-! ## Rows -/

structure RowsOnly (s t : SiteState) : Prop where
  conflicts : t.conflicts = s.conflicts
  resolutions : t.resolutions = s.resolutions
  tokens : t.tokens = s.tokens
  registers : ∀ register : QuarantineKey, register.2.2 ≠ crossSiteConflict →
    t.quarantine.find register = s.quarantine.find register
  journal : t.journal = s.journal
  parked : t.parked = s.parked

theorem RowsOnly.trans {s t u : SiteState} (first : RowsOnly s t) (second : RowsOnly t u) :
    RowsOnly s u where
  conflicts := second.conflicts.trans first.conflicts
  resolutions := second.resolutions.trans first.resolutions
  tokens := second.tokens.trans first.tokens
  registers register hreason :=
    (second.registers register hreason).trans (first.registers register hreason)
  journal := second.journal.trans first.journal
  parked := second.parked.trans first.parked

structure Serves (p : ManifestPut) (row : HostedRow) : Prop where
  sha : row.sha256 = p.sha256
  mutable : row.mutable = p.mutable
  stamp : p.mutable = true → row.metadata.hlc = p.metadata.hlc

/-- The manifest is of an undecided path, or names the kept digest of a closed one. -/
def Consistent (s : SiteState) (p : ManifestPut) : Prop :=
  ∀ r, storedResolution s p.feed p.path = some r →
    p.sha256 = r.keepSha ∧ p.mutable = false ∧ ∀ c ∈ s.conflicts, c.onPath p.feed p.path = false

section Rows

variable {a : Applier} {peer site : String} {p : ManifestPut} {s : SiteState}

theorem closeConflicts_nothing {feed path keepSha : String}
    (hnone : ∀ c ∈ s.conflicts, c.onPath feed path = false) :
    (closeConflicts feed path keepSha s).conflicts = s.conflicts := by
  unfold closeConflicts
  refine (List.map_congr_left ?_).trans (List.map_id _)
  intro c hmem
  rw [hnone c hmem]
  rfl

theorem mergeResolved_restores {pg : Postgres} {e : JournalEntry} {decision : Resolution}
    {t : SiteState} (hmerged : (mergeResolved pg e p decision s).state = t)
    (hfresh : s.hosted.find (p.feed, p.path) = none) (hkeep : p.sha256 = decision.keepSha)
    (himmutable : p.mutable = false)
    (hclosed : ∀ c ∈ s.conflicts, c.onPath p.feed p.path = false) :
    (∃ row, t.hosted.find (p.feed, p.path) = some row ∧ Serves p row) ∧
    (∀ other, other ≠ (p.feed, p.path) → t.hosted.find other = s.hosted.find other) ∧
    t.conflicts = s.conflicts ∧ t.resolutions = s.resolutions ∧ t.tokens = s.tokens ∧
    ∀ register : QuarantineKey, register.2.2 ≠ crossSiteConflict →
      t.quarantine.find register = s.quarantine.find register := by
  subst hmerged
  have hfiled : fileRejected e p decision s = s := if_pos hkeep
  unfold mergeResolved
  dsimp only
  rw [hfiled]
  refine ⟨?_, ?_, ?_, applyResolutionTx_resolutions .., applyResolutionTx_tokens ..,
    fun register hreason => applyResolutionTx_find_other hreason⟩
  · rw [applyResolutionTx_hosted]
    simp only [writeResolved, Table.find_upsert_self, hfresh]
    refine ⟨_, rfl, hkeep.symm, himmutable.symm, ?_⟩
    intro hmutable
    rw [himmutable] at hmutable
    cases hmutable
  · intro other hne
    rw [applyResolutionTx_hosted]
    exact writeResolved_find_of_ne _ _ _ _ hne
  · rw [applyResolutionTx_conflicts]
    exact closeConflicts_nothing hclosed

theorem importManifest_restores (hdone : (importManifest a peer site p s).fault = none)
    (hfresh : s.hosted.find (p.feed, p.path) = none) (consistent : Consistent s p) :
    (∃ row, (importManifest a peer site p s).state.hosted.find (p.feed, p.path) = some row ∧
      Serves p row) ∧
    (∀ other, other ≠ (p.feed, p.path) →
      (importManifest a peer site p s).state.hosted.find other = s.hosted.find other) ∧
    RowsOnly s (importManifest a peer site p s).state := by
  obtain ⟨blobs, hmerged⟩ := importManifest_completed hdone
  obtain ⟨hjournal, hparked, -⟩ := hmerged.frame
  generalize (importManifest a peer site p s).state = t at hmerged hjournal hparked ⊢
  have hpresent : ∀ existing,
      hostedState { s with blobs := blobs } p.feed p.path ≠ some existing := by
    intro existing hexisting
    have habsent : some existing = none := hexisting.symm.trans hfresh
    cases habsent
  cases hmerged with
  | resolved body complete available stored =>
    cases body
    obtain ⟨hkeep, himmutable, hclosed⟩ := consistent _ stored
    obtain ⟨hrow, hothers, hconflicts, hresolutions, htokens, hregisters⟩ :=
      mergeResolved_restores (s := { s with blobs := blobs }) rfl hfresh hkeep himmutable hclosed
    exact ⟨hrow, hothers, hconflicts, hresolutions, htokens, hregisters, hjournal, hparked⟩
  | inserted body complete available undecided absent =>
    cases body
    refine ⟨⟨replicatedRow p (snapshotEntry site p), ?_, rfl, rfl, fun _ => rfl⟩, ?_, ?_⟩
    · simp [insertHosted, hfresh]
    · exact fun other hne => Table.find_insertNew_of_ne _ _ hne
    · exact ⟨rfl, rfl, rfl, fun _ _ => rfl, rfl, rfl⟩
  | newer body complete available undecided present
  | older body complete available undecided present
  | repeated body complete available undecided present
  | conflicted body complete available undecided present =>
    cases body
    exact absurd present (hpresent _)
  | noticed body | fetched body | revoked body | blocked body | released body | decided body =>
    cases body

theorem Consistent.keepsBlocks (consistent : Consistent s p) (inv : ConflictBlocks s) :
    ConflictBlocks (importManifest a peer site p s).state := by
  refine inv.eventStep (e := snapshotEntry site p) ?_ (importManifest_step a peer site p s)
  intro hdecided c hmem hpath
  obtain ⟨r, hstored⟩ := Option.ne_none_iff_exists'.mp hdecided
  rw [(consistent r hstored).2.2 c hmem] at hpath
  cases hpath

theorem importManifests_restore {manifests : List ManifestPut}
    (hdone : (importManifests a peer site manifests s).fault = none)
    (hdistinct : (manifests.map fun p => (p.feed, p.path)).Nodup)
    (hfresh : ∀ p ∈ manifests, s.hosted.find (p.feed, p.path) = none)
    (consistent : ∀ p ∈ manifests, Consistent s p) :
    (∀ p ∈ manifests, ∃ row,
      (importManifests a peer site manifests s).state.hosted.find (p.feed, p.path) = some row ∧
        Serves p row) ∧
    (∀ key, key ∉ manifests.map (fun p => (p.feed, p.path)) →
      (importManifests a peer site manifests s).state.hosted.find key = s.hosted.find key) ∧
    RowsOnly s (importManifests a peer site manifests s).state ∧
    (ConflictBlocks s → ConflictBlocks (importManifests a peer site manifests s).state) := by
  induction manifests generalizing s with
  | nil =>
    exact ⟨fun p hmem => (nomatch hmem), fun _ _ => rfl,
      ⟨rfl, rfl, rfl, fun _ _ => rfl, rfl, rfl⟩, id⟩
  | cons p rest ih =>
    unfold importManifests at hdone ⊢
    obtain ⟨hfirst, hlater, hstate⟩ := Outcome.andThen_completed hdone
    rw [hstate]
    obtain ⟨hhead, htail⟩ := List.nodup_cons.mp hdistinct
    obtain ⟨⟨row, hrow, hserves⟩, hothers, honly⟩ := importManifest_restores hfirst
      (hfresh p List.mem_cons_self) (consistent p List.mem_cons_self)
    have hne : ∀ q ∈ rest, (q.feed, q.path) ≠ (p.feed, p.path) :=
      fun q hmem heq => hhead (List.mem_map.mpr ⟨q, hmem, heq⟩)
    obtain ⟨hrows, hkept, hrest, hblocks⟩ := ih hlater htail
      (fun q hmem => (hothers _ (hne q hmem)).trans (hfresh q (List.mem_cons_of_mem p hmem)))
      (fun q hmem => by
        unfold Consistent
        rw [storedResolution_congr honly.resolutions, honly.conflicts]
        exact consistent q (List.mem_cons_of_mem p hmem))
    refine ⟨?_, ?_, honly.trans hrest,
      fun inv => hblocks ((consistent p List.mem_cons_self).keepsBlocks inv)⟩
    · intro q hmem
      rcases List.mem_cons.mp hmem with rfl | hmem
      · exact ⟨row, (hkept _ hhead).trans hrow, hserves⟩
      · exact hrows q hmem
    · intro key habsent
      rw [List.map_cons, List.mem_cons, not_or] at habsent
      rw [hkept key habsent.2, hothers key habsent.1]

end Rows

/-! ## A whole import -/

structure Restored (source t : SiteState) : Prop extends Imported source t where
  rows : ∀ key row, source.hosted.find key = some row →
    ∃ imported, t.hosted.find key = some imported ∧ Serves (exportManifest key row) imported
  absent : ∀ key, source.hosted.find key = none → t.hosted.find key = none

theorem finishBootstrap_keeps (peer : String) (snap : Snapshot) (s : SiteState) :
    (adoptWatermark peer snap (advanceClockPastSnapshot snap s)).journal = s.journal ∧
      (adoptWatermark peer snap (advanceClockPastSnapshot snap s)).parked = s.parked := by
  unfold adoptWatermark advanceClockPastSnapshot
  split <;> split <;> (try split) <;> exact ⟨rfl, rfl⟩

section Import

variable {a : Applier} {peer site uuid : String} {source s t : SiteState} {p : ManifestPut}

theorem mem_snapshot_manifests :
    p ∈ (handleSnapshot site uuid source).manifests ↔
      ∃ key row, source.hosted.find key = some row ∧ exportManifest key row = p := by
  have hmanifests : (handleSnapshot site uuid source).manifests =
      source.hosted.rows.map fun row => exportManifest row.1 row.2 := rfl
  rw [hmanifests, List.mem_map]
  simp only [Prod.exists, Table.mem_rows_iff]

/-- The rows of the source agree with the decisions that were imported before them. -/
theorem Restricted.consistent (restricted : Restricted source s) (exportable : Exportable source)
    (hmem : p ∈ (handleSnapshot site uuid source).manifests) : Consistent s p := by
  intro r hstored
  obtain ⟨key, row, hrow, rfl⟩ := mem_snapshot_manifests.mp hmem
  obtain ⟨hserved, hclosed⟩ := exportable.decided key r
    ((restricted.stored key).symm.trans hstored)
  refine ⟨(hserved row hrow).1, (hserved row hrow).2, ?_⟩
  intro c hc
  obtain ⟨old, hold, hopen, rfl⟩ := restricted.conflicts c hc
  refine Bool.eq_false_iff.mpr fun hpath => ?_
  rw [hclosed old hold hpath] at hopen
  cases hopen

/-- After the restrictions the rows, and after them only the clock and the cursor. -/
theorem Restricted.restored (restricted : Restricted source s) (exportable : Exportable source)
    {imported : Outcome}
    (ran : importManifests a peer site (handleSnapshot site uuid source).manifests s = imported)
    (hdone : imported.fault = none) (hsame : SameTables imported.state t)
    (hjournal : t.journal = imported.state.journal) (hparked : t.parked = imported.state.parked) :
    Restored source t := by
  subst ran
  have hdistinct : ((handleSnapshot site uuid source).manifests.map fun p =>
      (p.feed, p.path)).Nodup := by
    rw [show (handleSnapshot site uuid source).manifests =
      source.hosted.rows.map fun row => exportManifest row.1 row.2 from rfl, List.map_map]
    exact source.hosted.nodup_keys_rows
  obtain ⟨hrows, hkept, honly, hblocks⟩ := importManifests_restore hdone hdistinct
    (fun p _ => by rw [restricted.hosted]; rfl) fun p hmem => restricted.consistent exportable hmem
  have hconflicts := hsame.conflicts.trans honly.conflicts
  refine
    { journal := hjournal.trans (honly.journal.trans restricted.journal)
      parked := hparked.trans (honly.parked.trans restricted.parked)
      registers := ?_
      conflicts := by rw [hconflicts]; exact restricted.conflicts
      covered := by rw [hconflicts]; exact restricted.covered
      stored := ?_
      revocations := ?_
      blocks := (hblocks restricted.blocks).of_same hsame.quarantine hsame.conflicts
      rows := ?_
      absent := ?_ }
  · intro register hreason
    rw [hsame.quarantine, honly.registers register hreason]
    exact restricted.registers register hreason
  · intro key
    rw [storedResolution_congr (hsame.resolutions.trans honly.resolutions)]
    exact restricted.stored key
  · intro hash
    rw [← restricted.revocations hash]
    unfold SiteState.revoked
    rw [hsame.tokens, honly.tokens]
  · intro key row hrow
    rw [hsame.hosted]
    exact hrows _ (mem_snapshot_manifests.mpr ⟨key, row, hrow, rfl⟩)
  · intro key hnone
    rw [hsame.hosted]
    refine (hkept key ?_).trans (by rw [restricted.hosted]; rfl)
    intro hlisted
    obtain ⟨p, hp, rfl⟩ := List.mem_map.mp hlisted
    obtain ⟨key, row, hrow, rfl⟩ := mem_snapshot_manifests.mp hp
    have hboth : some row = none := hrow.symm.trans hnone
    cases hboth

theorem bootstrap_restored (exportable : Exportable source)
    (hdone : (bootstrap a site (handleSnapshot site uuid source) { blobs := bytes }).fault = none) :
    Restored source
      (bootstrap a site (handleSnapshot site uuid source) { blobs := bytes }).state := by
  unfold bootstrap at hdone ⊢
  have hsite : ¬ (handleSnapshot site uuid source).site ≠ site := not_not.mpr rfl
  rw [if_neg hsite] at hdone ⊢
  cases hran : applySnapshotRestrictions site (handleSnapshot site uuid source)
      { blobs := bytes } with
  | error cause =>
    rw [hran] at hdone
    cases hdone
  | ok restricted =>
    rw [hran] at hdone
    obtain ⟨himported, -, hstate⟩ := Outcome.andThen_completed hdone
    dsimp only
    rw [hstate]
    obtain ⟨hjournal, hparked⟩ := finishBootstrap_keeps site (handleSnapshot site uuid source)
      (importManifests a site site (handleSnapshot site uuid source).manifests restricted).state
    exact (applySnapshotRestrictions_restricted exportable hran).restored exportable rfl himported
      (finishBootstrap_same _ _ _) hjournal hparked

end Import

end FondacoFormal.Convergence
