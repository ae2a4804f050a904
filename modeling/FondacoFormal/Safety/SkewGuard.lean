import FondacoFormal.Repl.Site
import Mathlib.Data.List.TakeWhile

/-!
# The clock-skew guard

A call of the replication loop is taken apart into the records it processes, one state change
per record.
-/

namespace FondacoFormal.Safety

open Library Library.Runs Library.Fallible State Repl

/-! ## The records of a call -/

inductive RecordStep where
  | publish (pg : Postgres) (site : String) (req : PublishRequest) (clock : TxClock)
  | deliver (a : Applier) (peer : String) (e : JournalEntry)
  | retry (a : Applier) (peer : String) (e : JournalEntry)
  | quarantine (q : QuarantineRecord)
  | conflict (c : ConflictRecord)
  | decision (peer : String) (r : ResolutionRecord)
  | revocation (hash : String)
  | manifest (a : Applier) (peer site : String) (p : ManifestPut)
  | finish (peer : String) (snap : Snapshot)

def RecordStep.run : RecordStep → SiteState → SiteState
  | publish pg site req clock, s => (SiteTx.publish pg site req clock).run s
  | deliver a peer e, s => (applyOne a peer e s).state
  | retry a peer e, s => (retryOne a peer e s).state
  | quarantine q, s => importQuarantine s q
  | conflict c, s => importConflict s c
  | decision peer r, s => importResolution peer s r
  | revocation hash, s => (importRevocation s hash).toOption.getD s
  | manifest a peer site p, s => (importManifest a peer site p s).state
  | finish peer snap, s => adoptWatermark peer snap (advanceClockPastSnapshot snap s)

/-- The stamp a record carries; an import ends by moving the clock past the newest one. -/
def RecordStep.stamp : RecordStep → Option HLC
  | publish _ _ _ _ => none
  | deliver _ _ e => some e.hlc
  | retry _ _ e => some e.hlc
  | quarantine q => some q.hlc
  | conflict _ => none
  | decision _ r => some r.hlc
  | revocation _ => none
  | manifest _ _ _ p => some p.metadata.hlc
  | finish _ snap => some snap.newest

def loopSteps {ι : Type} (step : ι → RecordStep) (call : ι → SiteState → Outcome) :
    List ι → SiteState → List RecordStep
  | [], _ => []
  | item :: rest, s =>
    step item ::
      match (call item s).fault with
      | none => loopSteps step call rest (call item s).state
      | some _ => []

/-- The entries of a batch up to one attributed to a third site, without the site's own. -/
def acceptedEntries (a : Applier) (peer : String) (entries : List JournalEntry) :
    List JournalEntry :=
  (entries.filter fun e => e.originSite ≠ a.site).takeWhile fun e => e.originSite = peer

def restrictionSteps (peer : String) (snap : Snapshot) : List RecordStep :=
  snap.quarantine.map .quarantine ++ snap.conflicts.map .conflict ++
    snap.resolutions.map (.decision peer) ++ snap.revoked.map .revocation

def bootstrapSteps (a : Applier) (peer : String) (snap : Snapshot) (s : SiteState) :
    List RecordStep :=
  if snap.site ≠ peer then []
  else
    match applySnapshotRestrictions peer snap s with
    | .error _ => []
    | .ok restricted =>
      restrictionSteps peer snap ++
        loopSteps (.manifest a peer snap.site) (importManifest a peer snap.site) snap.manifests
          restricted ++
        match (importManifests a peer snap.site snap.manifests restricted).fault with
        | none => [.finish peer snap]
        | some _ => []

def recordSteps : SiteCall → SiteState → List RecordStep
  | .publish pg site req clock, _ => [.publish pg site req clock]
  | .applyBatch a peer entries, s =>
    loopSteps (.deliver a peer) (applyOne a peer) (acceptedEntries a peer entries) s
  | .retryParked a peer budget, s =>
    loopSteps (.retry a peer) (retryOne a peer)
      (((parkedEvents s peer 100).map ParkedRow.entry).take budget) s
  | .bootstrap a peer snap, s => bootstrapSteps a peer snap s

variable {s : SiteState} {peer : String} {snap : Snapshot} {ι : Type} {step : ι → RecordStep}

section Replay

theorem mem_loopSteps {call : ι → SiteState → Outcome} {items : List ι} {taken : RecordStep}
    (hmem : taken ∈ loopSteps step call items s) : ∃ item ∈ items, taken = step item := by
  induction items generalizing s with
  | nil => cases hmem
  | cons item rest ih =>
    unfold loopSteps at hmem
    rcases List.mem_cons.mp hmem with heq | hlater
    · exact ⟨item, List.mem_cons_self, heq⟩
    · split at hlater
      · obtain ⟨other, hother, heq⟩ := ih hlater
        exact ⟨other, List.mem_cons_of_mem item hother, heq⟩
      · cases hlater

theorem loopSteps_run (step : ι → RecordStep) (call : ι → SiteState → Outcome)
    (loop : List ι → SiteState → Outcome) (hnil : ∀ s, (loop [] s).state = s)
    (hcons : ∀ item rest s, loop (item :: rest) s = (call item s).andThen (loop rest))
    (hstep : ∀ item s, (step item).run s = (call item s).state) (items : List ι) (s : SiteState) :
    (loop items s).state = runAll RecordStep.run (loopSteps step call items s) s := by
  induction items generalizing s with
  | nil => exact hnil s
  | cons item rest ih =>
    rw [hcons]
    unfold loopSteps Outcome.andThen
    simp only [runAll, hstep]
    cases (call item s).fault with
    | none => exact ih (call item s).state
    | some fault => rfl

theorem acceptedEntries_run (a : Applier) (peer : String) (entries : List JournalEntry)
    (s : SiteState) : (applyBatch a peer entries s).state = runAll RecordStep.run
      (loopSteps (.deliver a peer) (applyOne a peer) (acceptedEntries a peer entries) s) s := by
  induction entries generalizing s with
  | nil => rfl
  | cons e rest ih =>
    unfold applyBatch
    split
    · rename_i hown
      rw [ih]
      simp [acceptedEntries, hown]
    · rename_i hforeign
      split
      · rename_i hpeer
        have haccepted : acceptedEntries a peer (e :: rest) =
            e :: acceptedEntries a peer rest := by
          unfold acceptedEntries
          rw [List.filter_cons_of_pos (by simpa using hforeign),
            List.takeWhile_cons_of_pos (by simpa using hpeer)]
        rw [haccepted]
        unfold loopSteps Outcome.andThen
        simp only [runAll, RecordStep.run]
        cases (applyOne a peer e s).fault with
        | none => exact ih (applyOne a peer e s).state
        | some fault => rfl
      · rename_i hthird
        simp [acceptedEntries, hforeign, hthird, loopSteps, runAll]

theorem runAll_map_foldl {f : SiteState → ι → SiteState}
    (hstep : ∀ item s, (step item).run s = f s item) (items : List ι) (s : SiteState) :
    runAll RecordStep.run (items.map step) s = items.foldl f s := by
  induction items generalizing s with
  | nil => rfl
  | cons item rest ih =>
    simp only [List.map_cons, runAll, List.foldl_cons, hstep]
    exact ih (f s item)

theorem runAll_revocations {hashes : List String} {s t : SiteState}
    (ran : hashes.foldlM importRevocation s = .ok t) :
    runAll RecordStep.run (hashes.map .revocation) s = t := by
  induction hashes generalizing s with
  | nil =>
    cases ran
    rfl
  | cons hash rest ih =>
    rw [List.foldlM_cons] at ran
    obtain ⟨next, hnext, ran⟩ := bind_eq_ok.mp ran
    simp only [List.map_cons, runAll, RecordStep.run, hnext]
    exact ih ran

theorem restrictionSteps_run {s t : SiteState}
    (ran : applySnapshotRestrictions peer snap s = .ok t) :
    runAll RecordStep.run (restrictionSteps peer snap) s = t := by
  unfold restrictionSteps
  rw [runAll_append, runAll_append, runAll_append,
    runAll_map_foldl (f := importQuarantine) fun _ _ => rfl,
    runAll_map_foldl (f := importConflict) fun _ _ => rfl,
    runAll_map_foldl (f := importResolution peer) fun _ _ => rfl]
  exact runAll_revocations ran

theorem bootstrapSteps_run (a : Applier) (peer : String) (snap : Snapshot) (s : SiteState) :
    (bootstrap a peer snap s).state =
      runAll RecordStep.run (bootstrapSteps a peer snap s) s := by
  unfold bootstrap bootstrapSteps
  split
  · rfl
  · cases hran : applySnapshotRestrictions peer snap s with
    | error cause => rfl
    | ok restricted =>
      dsimp only
      rw [runAll_append, runAll_append, restrictionSteps_run hran]
      have hmanifests := loopSteps_run (.manifest a peer snap.site)
        (importManifest a peer snap.site) (importManifests a peer snap.site) (fun _ => rfl)
        (fun _ _ _ => rfl) (fun _ _ => rfl) snap.manifests restricted
      rw [← hmanifests]
      unfold Outcome.andThen
      cases (importManifests a peer snap.site snap.manifests restricted).fault with
      | none | some fault => rfl

theorem recordSteps_run (call : SiteCall) (s : SiteState) :
    call.run s = runAll RecordStep.run (recordSteps call s) s := by
  cases call with
  | publish pg site req clock => rfl
  | applyBatch a peer entries => exact acceptedEntries_run a peer entries s
  | retryParked a peer budget =>
    exact loopSteps_run (.retry a peer) (retryOne a peer) (retryAll a peer) (fun _ => rfl)
      (fun _ _ _ => rfl) (fun _ _ => rfl) _ s
  | bootstrap a peer snap => exact bootstrapSteps_run a peer snap s

end Replay

/-! ## What the guard lets through -/

/-- More than the skew limit ahead of the local clock, in unbounded arithmetic. -/
def TooFuture (a : Applier) (h : HLC) : Prop :=
  a.maxSkew < (h.wall - a.now) * 1000000

def FutureAt (h : HLC) : SiteCall → Prop
  | .publish _ _ _ _ => False
  | .applyBatch a _ _ => TooFuture a h
  | .retryParked a _ _ => TooFuture a h
  | .bootstrap a _ _ => TooFuture a h

structure SameGuarded (s t : SiteState) : Prop where
  hosted : t.hosted = s.hosted
  quarantine : t.quarantine = s.quarantine
  resolutions : t.resolutions = s.resolutions
  clock : t.clock = s.clock

/--
The condition on a call: no entry of a batch is so far ahead that its distance
overflows 64-bit nanoseconds, and neither a parked event about to be retried nor
a record of a snapshot about to be imported is too far ahead.
-/
def KeepsSkewGuard (s : SiteState) : SiteCall → Prop
  | .publish _ _ _ _ => True
  | .applyBatch a peer entries => ∀ e ∈ entries, e.originSite = peer →
      (e.hlc.wall - a.now) * 1000000 < 2 ^ 63
  | .retryParked a peer _ => ∀ row ∈ parkedEvents s peer 100, ¬ TooFuture a row.entry.hlc
  | .bootstrap a peer snap => snap.site = peer → ∀ h ∈ snap.stamps, ¬ TooFuture a h

theorem SameGuarded.refl (s : SiteState) : SameGuarded s s :=
  ⟨rfl, rfl, rfl, rfl⟩

variable {a : Applier} {e : JournalEntry}

theorem TooFuture.skew (hfuture : TooFuture a e.hlc)
    (hfits : (e.hlc.wall - a.now) * 1000000 < 2 ^ 63) : a.maxSkew < a.skew e := by
  have hpos := a.maxSkew_pos
  unfold TooFuture at hfuture
  unfold Applier.skew
  rw [wrap64_eq (n := e.hlc.wall - a.now) (by omega) (by omega), wrap64_eq (by omega) hfits]
  exact hfuture

theorem park_sameGuarded (a : Applier) (e : JournalEntry) (reason : Option String)
    (s : SiteState) : SameGuarded s (park a e reason s).state := by
  unfold park
  cases hran : parkEvent a.pg e reason s with
  | error cause => exact .refl s
  | ok next =>
    obtain ⟨parked, rfl⟩ := parkEvent_ok hran
    exact ⟨rfl, rfl, rfl, rfl⟩

theorem applyOne_sameGuarded (hskew : a.maxSkew < a.skew e) (s : SiteState) :
    SameGuarded s (applyOne a peer e s).state := by
  unfold applyOne
  rw [if_pos hskew]
  exact park_sameGuarded a e _ s

theorem newest_mem_stamps (snap : Snapshot) :
    snap.newest ∈ snap.stamps ∨ snap.newest = ⟨0, 0⟩ := by
  unfold Snapshot.newest
  refine List.foldlRecOn snap.stamps _
    (motive := fun newest => newest ∈ snap.stamps ∨ newest = ⟨0, 0⟩) (.inr rfl) ?_
  intro newest hnewest h hmem
  split
  · exact .inl hmem
  · exact hnewest

theorem finish_sameGuarded (hzero : snap.newest = ⟨0, 0⟩) (peer : String) (s : SiteState) :
    SameGuarded s (RecordStep.run (.finish peer snap) s) := by
  have hkept : advanceClockPastSnapshot snap s = s := by
    unfold advanceClockPastSnapshot
    rw [hzero]
    rfl
  simp only [RecordStep.run, hkept]
  unfold adoptWatermark
  split
  · exact ⟨rfl, rfl, rfl, rfl⟩
  · exact .refl s

theorem bootstrapSteps_stamp {step : RecordStep} {h : HLC}
    (hmem : step ∈ bootstrapSteps a peer snap s) (hstamp : step.stamp = some h) :
    snap.site = peer ∧ (h ∈ snap.stamps ∨ step = .finish peer snap ∧ snap.newest = ⟨0, 0⟩) := by
  unfold bootstrapSteps at hmem
  split at hmem
  · cases hmem
  · rename_i hsite
    refine ⟨not_not.mp hsite, ?_⟩
    cases hran : applySnapshotRestrictions peer snap s with
    | error cause =>
      rw [hran] at hmem
      cases hmem
    | ok restricted =>
      simp only [hran, restrictionSteps, List.mem_append, List.mem_map] at hmem
      unfold Snapshot.stamps
      simp only [List.mem_append, List.mem_map]
      rcases hmem with ((((⟨q, hq, rfl⟩ | ⟨c, -, rfl⟩) | ⟨r, hr, rfl⟩) | ⟨hash, -, rfl⟩) |
        hmanifest) | hfinish
      · cases hstamp
        exact .inl (.inl (.inr ⟨q, hq, rfl⟩))
      · cases hstamp
      · cases hstamp
        exact .inl (.inr ⟨r, hr, rfl⟩)
      · cases hstamp
      · obtain ⟨p, hp, rfl⟩ := mem_loopSteps hmanifest
        cases hstamp
        exact .inl (.inl (.inl ⟨p, hp, rfl⟩))
      · split at hfinish
        · rw [List.mem_singleton.mp hfinish] at hstamp ⊢
          cases hstamp
          rcases newest_mem_stamps snap with hnewest | hzero
          · left
            simpa only [Snapshot.stamps, List.mem_append, List.mem_map] using hnewest
          · exact .inr ⟨rfl, hzero⟩
        · cases hfinish

theorem recordSteps_guarded {call : SiteCall} (hcond : KeepsSkewGuard s call) {step : RecordStep}
    (hmem : step ∈ recordSteps call s) {h : HLC} (hstamp : step.stamp = some h)
    (hfuture : FutureAt h call) (t : SiteState) : SameGuarded t (step.run t) := by
  cases call with
  | publish pg site req clock => cases hfuture
  | applyBatch a peer entries =>
    obtain ⟨e, he, rfl⟩ := mem_loopSteps hmem
    cases hstamp
    have hpeer : e.originSite = peer := by
      simpa using List.mem_takeWhile_imp he
    have hentry : e ∈ entries := (List.mem_filter.mp ((List.takeWhile_sublist _).mem he)).1
    exact applyOne_sameGuarded (TooFuture.skew hfuture (hcond e hentry hpeer)) t
  | retryParked a peer budget =>
    obtain ⟨e, he, rfl⟩ := mem_loopSteps hmem
    cases hstamp
    obtain ⟨row, hrow, rfl⟩ := List.mem_map.mp (List.mem_of_mem_take he)
    exact absurd hfuture (hcond row hrow)
  | bootstrap a peer snap =>
    obtain ⟨hsite, hrecord | ⟨rfl, hzero⟩⟩ := bootstrapSteps_stamp hmem hstamp
    · exact absurd hfuture (hcond hsite h hrecord)
    · exact finish_sameGuarded hzero peer t

/--
In every sequence of publishes, batches, retry passes and imports that meets the
condition, every call is the run of its records, and a record stamped more than
the skew limit ahead of the clock at the call leaves hosted coordinates,
quarantine, resolutions and the clock row as they were.
-/
theorem future_record_changes_nothing (calls : List SiteCall) (s : SiteState)
    (hmeets : Meets SiteCall.run KeepsSkewGuard calls s) (before : List SiteCall)
    (call : SiteCall) (after : List SiteCall) (hcalls : calls = before ++ call :: after)
    (reached : SiteState) (hreached : reached = runAll SiteCall.run before s) :
    call.run reached = runAll RecordStep.run (recordSteps call reached) reached ∧
    ∀ done step rest, recordSteps call reached = done ++ step :: rest →
      ∀ h, step.stamp = some h → FutureAt h call →
        SameGuarded (runAll RecordStep.run done reached)
          (step.run (runAll RecordStep.run done reached)) := by
  subst hcalls hreached
  have hcond := (meets_append.mp hmeets).2.1
  refine ⟨recordSteps_run call _, ?_⟩
  intro done step rest hsteps h hstamp hfuture
  have hmem : step ∈ recordSteps call (runAll SiteCall.run before s) := by
    rw [hsteps]
    exact List.mem_append_right done List.mem_cons_self
  exact recordSteps_guarded hcond hmem hstamp hfuture _

/-! ## An event from the future -/

def hourAhead : JournalEntry :=
  samplePut "east" 'a' 3601000

def receiveHourAhead : SiteCall :=
  .applyBatch (lazyApplier "north" 1000) "east" [hourAhead]

theorem future_record_changes_nothing_hourAhead :
    FutureAt hourAhead.hlc receiveHourAhead ∧
      SameGuarded {}
        (RecordStep.run (.deliver (lazyApplier "north" 1000) "east" hourAhead) {}) := by
  have hfuture : FutureAt hourAhead.hlc receiveHourAhead := by
    simp only [FutureAt, receiveHourAhead, TooFuture]
    decide
  have hmeets : Meets SiteCall.run KeepsSkewGuard [receiveHourAhead] {} := by
    refine ⟨?_, trivial⟩
    intro e hmem _
    rw [List.mem_singleton.mp hmem]
    decide
  refine ⟨hfuture, ?_⟩
  exact (future_record_changes_nothing [receiveHourAhead] {} hmeets [] receiveHourAhead [] rfl {}
    rfl).2 [] _ [] rfl hourAhead.hlc rfl hfuture

def FutureEscapes (s : SiteState) (call : SiteCall) : Prop :=
  ∃ step rest h, recordSteps call s = step :: rest ∧ step.stamp = some h ∧ FutureAt h call ∧
    ¬ SameGuarded s (step.run s)

/--
A minute after it was parked the event is retried and applied, although the
clock is still an hour behind; a stamp whose distance wraps is applied at once;
and a snapshot is imported whatever its stamps.
-/
theorem future_records_take_effect :
    FutureEscapes (receiveHourAhead.run {})
      (.retryParked (lazyApplier "north" 61000) "east" 100) ∧
    FutureEscapes {} (.applyBatch (lazyApplier "north" 1000) "east"
      [samplePut "east" 'a' 9223372037855]) ∧
    FutureEscapes {} (.bootstrap (lazyApplier "north" 1000) "east"
      { site := "east", quarantine := [⟨"npm", "pkg@1", "manual", "", true, ⟨3601000, 0⟩⟩] }) := by
  refine ⟨⟨.retry (lazyApplier "north" 61000) "east" hourAhead, [], hourAhead.hlc,
    rfl, rfl, ?_, ?_⟩,
    ⟨_, [], _, rfl, rfl, ?_, ?_⟩, ⟨_, _, _, rfl, rfl, ?_, ?_⟩⟩
  · simp only [FutureAt, TooFuture]
    decide
  · intro same
    have hclock := same.clock
    revert hclock
    decide
  · simp only [FutureAt, TooFuture]
    decide
  · intro same
    have hclock := same.clock
    revert hclock
    decide
  · simp only [FutureAt, TooFuture]
    decide
  · intro same
    have hregister := congrArg (Table.find · ("npm", "pkg@1", "manual")) same.quarantine
    cases hregister

end FondacoFormal.Safety
