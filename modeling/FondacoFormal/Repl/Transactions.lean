import FondacoFormal.Repl.Snapshot
import Mathlib.Data.String.Basic

/-!
# What a transaction can do

One inversion per entry point: an applied event merges in one of a few ways, and everything
around the merge (journal, parked events, clock, cursors, blobs) leaves the merge tables alone.
-/

namespace FondacoFormal.Repl

open Library Library.Fallible State

/-! ## The merge of one event -/

def Complete (p : ManifestPut) : Prop :=
  p.feed ≠ "" ∧ p.path ≠ "" ∧ p.sha256.utf8ByteSize = 64

def Available (a : Applier) (p : ManifestPut) (s : SiteState) : Prop :=
  a.eager p.feed = true → p.sha256 ∈ s.blobs

def WellFormed (p : ConflictResolve) : Prop :=
  p.feed ≠ "" ∧ p.path ≠ "" ∧ p.keepSha.utf8ByteSize = 64 ∧ isHex p.keepSha = true

def Blocking (p : QuarantineSet) : Prop :=
  p.feed ≠ "" ∧ p.coordinate ≠ "" ∧ p.reason ≠ ""

inductive Merged (a : Applier) (peer : String) (e : JournalEntry) (s : SiteState) :
    SiteState → Prop where
  | resolved {p : ManifestPut} {decision : Resolution} (body : e.event = .manifestPut (.ok p))
      (complete : Complete p) (available : Available a p s)
      (stored : storedResolution s p.feed p.path = some decision) :
      Merged a peer e s (mergeResolved a.pg e p decision s).state
  | inserted {p : ManifestPut} (body : e.event = .manifestPut (.ok p))
      (complete : Complete p) (available : Available a p s)
      (undecided : storedResolution s p.feed p.path = none)
      (absent : hostedState s p.feed p.path = none) :
      Merged a peer e s (insertHosted p e s)
  | newer {p : ManifestPut} {existing : HostedRow} (body : e.event = .manifestPut (.ok p))
      (complete : Complete p) (available : Available a p s)
      (undecided : storedResolution s p.feed p.path = none)
      (present : hostedState s p.feed p.path = some existing)
      (mutables : p.mutable = true ∧ existing.mutable = true)
      (later : isNewerThanStored s p.feed p.path e.hlc p.sha256 existing.sha256 = true) :
      Merged a peer e s (updateHosted p e s)
  | older {p : ManifestPut} {existing : HostedRow} (body : e.event = .manifestPut (.ok p))
      (complete : Complete p) (available : Available a p s)
      (undecided : storedResolution s p.feed p.path = none)
      (present : hostedState s p.feed p.path = some existing)
      (mutables : p.mutable = true ∧ existing.mutable = true)
      (earlier : isNewerThanStored s p.feed p.path e.hlc p.sha256 existing.sha256 = false) :
      Merged a peer e s s
  | repeated {p : ManifestPut} {existing : HostedRow} (body : e.event = .manifestPut (.ok p))
      (complete : Complete p) (available : Available a p s)
      (undecided : storedResolution s p.feed p.path = none)
      (present : hostedState s p.feed p.path = some existing)
      (immutables : ¬ (p.mutable = true ∧ existing.mutable = true))
      (same : existing.sha256 = p.sha256) :
      Merged a peer e s s
  | conflicted {p : ManifestPut} {existing : HostedRow} (body : e.event = .manifestPut (.ok p))
      (complete : Complete p) (available : Available a p s)
      (undecided : storedResolution s p.feed p.path = none)
      (present : hostedState s p.feed p.path = some existing)
      (immutables : ¬ (p.mutable = true ∧ existing.mutable = true))
      (differs : existing.sha256 ≠ p.sha256) :
      Merged a peer e s (mergeConflict e p existing s).state
  | noticed {p : BlobAvailable} (body : e.event = .blobAvailable (.ok p))
      (useless : p.sha256 = "" ∨ p.sha256 ∈ s.blobs ∨
        (a.fetch p.sha256 p.size peer).toOption = none) :
      Merged a peer e s s
  | fetched {p : BlobAvailable} (body : e.event = .blobAvailable (.ok p))
      (named : p.sha256 ≠ "") (answer : a.fetch p.sha256 p.size peer = .ok ()) :
      Merged a peer e s (storeBlob p.sha256 s)
  | revoked {p : TokenRevoke} {next : SiteState} (body : e.event = .tokenRevoke (.ok p))
      (digest : p.hash.utf8ByteSize = 64) (ran : revokeToken p.hash s = .ok next) :
      Merged a peer e s next
  | blocked {p : QuarantineSet} (body : e.event = .quarantineSet (.ok p))
      (blocking : Blocking p) :
      Merged a peer e s (quarantineTx p.feed p.coordinate p.reason p.detail e.hlc s)
  | released {p : QuarantineRelease} (body : e.event = .quarantineRelease (.ok p)) :
      Merged a peer e s (releaseQuarantineTx p.feed p.coordinate
        (QuarantineRelease.effectiveReason p) e.hlc s)
  | decided {p : ConflictResolve} {side : SideMeta} (body : e.event = .conflictResolve (.ok p))
      (wellFormed : WellFormed p)
      (recorded : conflictSide a.pg s p.feed p.path p.keepSha = some side) :
      Merged a peer e s (mergeDecision a.pg e p (SideMeta.decision side e.hlc) s).state

variable {a : Applier} {peer : String} {e : JournalEntry} {p : ManifestPut} {s : SiteState}

theorem mergeUndecided_merged (body : e.event = .manifestPut (.ok p)) (complete : Complete p)
    (available : Available a p s) (undecided : storedResolution s p.feed p.path = none) :
    Merged a peer e s (mergeUndecided e p s).state := by
  unfold mergeUndecided
  cases hstate : hostedState s p.feed p.path with
  | none => exact .inserted body complete available undecided hstate
  | some existing =>
    dsimp only
    split
    · rename_i hmutable
      rw [Bool.and_eq_true] at hmutable
      split
      · rename_i hnewer
        exact .newer body complete available undecided hstate hmutable hnewer
      · rename_i holder
        exact .older body complete available undecided hstate hmutable
          (Bool.eq_false_iff.mpr holder)
    · rename_i himmutable
      rw [Bool.and_eq_true] at himmutable
      split
      · rename_i hsame
        exact .repeated body complete available undecided hstate himmutable hsame
      · rename_i hdiffers
        exact .conflicted body complete available undecided hstate himmutable hdiffers

variable {effect : Effect}

theorem applyManifestPut_merged {body : Decoded ManifestPut} (hbody : e.event = .manifestPut body)
    (ran : applyManifestPut a e body s = .ok effect) : Merged a peer e s effect.state := by
  cases body with
  | error message => cases ran
  | ok p =>
    simp only [applyManifestPut] at ran
    split at ran
    · cases ran
    · rename_i hcomplete
      split at ran
      · cases ran
      · rename_i havailable
        have complete : Complete p := by
          simpa [Complete, not_or, and_assoc] using hcomplete
        have available : Available a p s := by
          intro heager
          simpa [heager, hasBlob] using havailable
        cases hstored : storedResolution s p.feed p.path with
        | some decision =>
          rw [hstored] at ran
          cases ran
          exact .resolved hbody complete available hstored
        | none =>
          rw [hstored] at ran
          cases ran
          exact mergeUndecided_merged hbody complete available hstored

theorem applyBlobAvailable_merged {body : Decoded BlobAvailable}
    (hbody : e.event = .blobAvailable body) (ran : applyBlobAvailable a peer body s = .ok effect) :
    Merged a peer e s effect.state := by
  cases body with
  | error message => cases ran
  | ok p =>
    simp only [applyBlobAvailable] at ran
    split at ran
    · rename_i huseless
      cases ran
      have huseless : p.sha256 = "" ∨ p.sha256 ∈ s.blobs := by
        simpa [hasBlob] using huseless
      exact .noticed hbody (huseless.imp_right Or.inl)
    · rename_i huseful
      cases hanswer : a.fetch p.sha256 p.size peer with
      | ok answer =>
        rw [hanswer] at ran
        cases ran
        have hnamed : p.sha256 ≠ "" := by
          intro hempty
          simp [hempty] at huseful
        exact .fetched hbody hnamed hanswer
      | error message =>
        rw [hanswer] at ran
        cases ran
        exact .noticed hbody (.inr (.inr (by rw [hanswer]; rfl)))

/-- `dispatch` merges in one of the listed ways. -/
theorem dispatch_merged (ran : dispatch a peer e s = .ok effect) :
    Merged a peer e s effect.state := by
  unfold dispatch at ran
  cases hevent : e.event <;> rw [hevent] at ran
  case manifestPut body => exact applyManifestPut_merged hevent ran
  case blobAvailable body => exact applyBlobAvailable_merged hevent ran
  case tokenRevoke body =>
    cases body with
    | error message => cases ran
    | ok p =>
      simp only [applyTokenRevoke] at ran
      split at ran
      · cases ran
      · rename_i hwell
        cases hrevoke : revokeToken p.hash s with
        | error cause =>
          rw [hrevoke] at ran
          cases ran
        | ok next =>
          rw [hrevoke] at ran
          cases ran
          exact .revoked hevent (not_not.mp hwell) hrevoke
  case quarantineSet body =>
    cases body with
    | error message => cases ran
    | ok p =>
      simp only [applyQuarantineSet] at ran
      split at ran
      · cases ran
      · rename_i hblocking
        cases ran
        exact .blocked hevent (by simpa [Blocking, not_or, and_assoc] using hblocking)
  case quarantineRelease body =>
    cases body with
    | error message => cases ran
    | ok p =>
      cases ran
      exact .released hevent
  case conflictResolve body =>
    cases body with
    | error message => cases ran
    | ok p =>
      simp only [applyConflictResolve] at ran
      split at ran
      · cases ran
      · rename_i hwell
        cases hside : conflictSide a.pg s p.feed p.path p.keepSha with
        | none =>
          rw [hside] at ran
          cases ran
        | some side =>
          rw [hside] at ran
          cases ran
          exact .decided hevent (by simpa [WellFormed, not_or, and_assoc] using hwell)
            hside
  case unknown kind => cases ran

theorem Merged.of_decided_put {decision : Resolution} {after : SiteState}
    (hmerged : Merged a peer e s after) (body : e.event = .manifestPut (.ok p))
    (stored : storedResolution s p.feed p.path = some decision) :
    after = (mergeResolved a.pg e p decision s).state := by
  cases hmerged with
  | resolved hbody _ _ hstored =>
    rw [body] at hbody
    cases hbody
    rw [stored] at hstored
    cases hstored
    rfl
  | inserted hbody _ _ undecided | newer hbody _ _ undecided | older hbody _ _ undecided
  | repeated hbody _ _ undecided | conflicted hbody _ _ undecided =>
    rw [body] at hbody
    cases hbody
    rw [stored] at undecided
    cases undecided
  | noticed hbody | fetched hbody | revoked hbody | blocked hbody | released hbody
  | decided hbody =>
    rw [body] at hbody
    cases hbody

theorem recordResolvedConflictTx_eq (p : ManifestPut) (kept rejected : SideMeta) (site : String)
    (s : SiteState) : ∃ conflicts, recordResolvedConflictTx p kept rejected site s =
      { s with conflicts := conflicts } ∧
      ∀ c ∈ conflicts, c.unresolved = false ∨ c ∈ s.conflicts := by
  unfold recordResolvedConflictTx
  split
  · exact ⟨s.conflicts, rfl, fun c hmem => .inr hmem⟩
  · refine ⟨_, rfl, ?_⟩
    intro c hmem
    rcases List.mem_append.mp hmem with hold | hnew
    · exact .inr hold
    · rw [List.mem_singleton.mp hnew]
      exact .inl rfl

section

variable (e : JournalEntry) (p : ManifestPut) (decision : Resolution) (s : SiteState)

/-- Filing a rejected digest opens no conflict and leaves rows and decisions alone. -/
theorem fileRejected_spec : (fileRejected e p decision s).hosted = s.hosted ∧
      (fileRejected e p decision s).resolutions = s.resolutions ∧
      (fileRejected e p decision s).tokens = s.tokens ∧
      ∀ c ∈ (fileRejected e p decision s).conflicts, c.unresolved = false ∨ c ∈ s.conflicts := by
  unfold fileRejected
  split
  · exact ⟨rfl, rfl, rfl, fun c hmem => .inr hmem⟩
  · obtain ⟨conflicts, heq, hold⟩ := recordResolvedConflictTx_eq p (Resolution.side decision)
      (ManifestPut.side p) e.originSite s
    rw [heq, syncConflictQuarantineTx_eq]
    exact ⟨rfl, rfl, rfl, hold⟩

theorem fileRejected_conflicts :
    ((fileRejected e p decision s).conflicts = s.conflicts ∧
      (p.sha256 = decision.keepSha ∨ Recorded s p.feed p.path p.sha256)) ∨
    ∃ c, (fileRejected e p decision s).conflicts = s.conflicts ++ [c] ∧
      c.onPath p.feed p.path = true ∧ c.coordinate = p.coord ∧ p.sha256 ≠ decision.keepSha ∧
      ∀ sha, c.names sha = true ↔ sha = decision.keepSha ∨ sha = p.sha256 := by
  unfold fileRejected
  split
  · rename_i hkept
    exact .inl ⟨rfl, .inl hkept⟩
  · rename_i hrejected
    rw [syncConflictQuarantineTx_conflicts]
    unfold recordResolvedConflictTx
    split
    · rename_i hknown
      obtain ⟨c, hmem, hboth⟩ := List.any_eq_true.mp hknown
      obtain ⟨hpath, hname⟩ := Bool.and_eq_true_iff.mp hboth
      exact .inl ⟨rfl, .inr ⟨c, hmem, hpath, hname⟩⟩
    · refine .inr ⟨_, rfl, ConflictRow.onPath_iff.mpr ⟨rfl, rfl⟩, rfl, hrejected, ?_⟩
      intro sha
      rw [ConflictRow.names_iff]
      exact or_congr eq_comm eq_comm

end

/-! ## What surrounds the merge -/

structure SameTables (s t : SiteState) : Prop where
  hosted : t.hosted = s.hosted
  quarantine : t.quarantine = s.quarantine
  conflicts : t.conflicts = s.conflicts
  resolutions : t.resolutions = s.resolutions
  tokens : t.tokens = s.tokens

namespace SameTables

theorem refl (s : SiteState) : SameTables s s :=
  ⟨rfl, rfl, rfl, rfl, rfl⟩

theorem trans {t u : SiteState} (first : SameTables s t) (second : SameTables t u) :
    SameTables s u :=
  ⟨second.hosted.trans first.hosted, second.quarantine.trans first.quarantine,
    second.conflicts.trans first.conflicts, second.resolutions.trans first.resolutions,
    second.tokens.trans first.tokens⟩

end SameTables

variable {next : SiteState} {hash : String}

theorem revokeToken_tokens (ran : revokeToken hash s = .ok next) :
    ∃ tokens, next = { s with tokens := tokens } := by
  unfold revokeToken at ran
  split at ran
  · cases ran
  · dsimp only at ran
    split at ran
    · cases ran
      exact ⟨_, rfl⟩
    · split at ran
      · cases ran
      · cases ran
        exact ⟨_, rfl⟩

theorem mergeConflict_spec (e : JournalEntry) {existing : HostedRow}
    (hexisting : hostedState s p.feed p.path = some existing)
    (hdiffers : existing.sha256 ≠ p.sha256) : ∃ hosted quarantine row c,
      (mergeConflict e p existing s).state =
        { s with hosted := hosted, quarantine := quarantine, conflicts := s.conflicts ++ [c] } ∧
      hosted.find (p.feed, p.path) = some row ∧
      row.sha256 = min p.sha256 existing.sha256 ∧
      (row.mutable = existing.mutable ∨ row.mutable = p.mutable) ∧
      (∀ other, other ≠ (p.feed, p.path) → hosted.find other = s.hosted.find other) ∧
      c.onPath p.feed p.path = true ∧ c.coordinate = p.coord ∧ c.unresolved = true ∧
      ∀ sha, c.names sha = true ↔ sha = existing.sha256 ∨ sha = p.sha256 := by
  unfold mergeConflict
  by_cases hwins : existing.sha256 < p.sha256
  · simp only [HostedRow.side, ManifestPut.side, hwins, decide_true, if_true]
    rw [syncConflictQuarantineTx_eq]
    refine ⟨s.hosted, _, existing, _, rfl, hexisting, (min_eq_right hwins.le).symm, .inl rfl,
      fun _ _ => rfl, ConflictRow.onPath_iff.mpr ⟨rfl, rfl⟩, rfl, rfl, ?_⟩
    intro sha
    rw [ConflictRow.names_iff]
    exact or_congr eq_comm eq_comm
  · have hloses : p.sha256 < existing.sha256 :=
      lt_of_le_of_ne (not_lt.mp hwins) fun heq => hdiffers heq.symm
    simp only [HostedRow.side, ManifestPut.side, hwins, decide_false, Bool.false_eq_true,
      if_false, hdiffers.symm]
    rw [syncConflictQuarantineTx_eq]
    refine ⟨(updateHosted p e s).hosted, _, _, _, rfl, updateHosted_find_self hexisting e,
      (min_eq_left hloses.le).symm, .inr rfl, fun other hne => Table.find_modify_of_ne _ _ hne,
      ConflictRow.onPath_iff.mpr ⟨rfl, rfl⟩, rfl, rfl, ?_⟩
    intro sha
    rw [ConflictRow.names_iff, or_comm]
    exact or_congr eq_comm eq_comm

def Offers (a : Applier) (peer : String) (e : JournalEntry) (sha : String) : Prop :=
  match e.event with
  | .manifestPut (.ok p) => p.sha256 = sha ∧ sha ≠ "" ∧ a.eager p.feed = true ∧
      a.fetch p.sha256 p.size peer = .ok ()
  | .blobAvailable (.ok p) => p.sha256 = sha ∧ sha ≠ "" ∧ a.fetch p.sha256 p.size peer = .ok ()
  | _ => False

def FetchStep (a : Applier) (peer : String) (e : JournalEntry) (before after : Finset String) :
    Prop :=
  after = before ∨ ∃ sha, Offers a peer e sha ∧ after = insert sha before

/-- Merging leaves the journal, the parked events, the cursors and the clock alone. -/
theorem Merged.frame {after : SiteState} (hmerged : Merged a peer e s after) :
    after.journal = s.journal ∧ after.parked = s.parked ∧
      after.clock = s.clock ∧ after.cursors = s.cursors ∧
      FetchStep a peer e s.blobs after.blobs := by
  have happly : ∀ (feed path coord : String) (r : Resolution) (site : String) (t : SiteState),
      applyResolutionTx a.pg feed path coord r site t =
        { t with
          hosted := (applyResolutionTx a.pg feed path coord r site t).hosted
          quarantine := (applyResolutionTx a.pg feed path coord r site t).quarantine
          conflicts := (applyResolutionTx a.pg feed path coord r site t).conflicts } := by
    intro feed path coord r site t
    unfold applyResolutionTx
    rw [syncConflictQuarantineTx_eq]
    rfl
  cases hmerged with
  | resolved =>
    unfold mergeResolved fileRejected
    rw [happly]
    split
    · exact ⟨rfl, rfl, rfl, rfl, Or.inl rfl⟩
    · obtain ⟨conflicts, heq, -⟩ := recordResolvedConflictTx_eq _ _ _ _ s
      rw [syncConflictQuarantineTx_eq, heq]
      exact ⟨rfl, rfl, rfl, rfl, Or.inl rfl⟩
  | inserted | newer | older | repeated | noticed | blocked | released =>
    exact ⟨rfl, rfl, rfl, rfl, Or.inl rfl⟩
  | conflicted _ _ _ _ present _ differs =>
    obtain ⟨hosted, quarantine, row, c, hafter, -⟩ := mergeConflict_spec e present differs
    rw [hafter]
    exact ⟨rfl, rfl, rfl, rfl, Or.inl rfl⟩
  | fetched body named answer =>
    refine ⟨rfl, rfl, rfl, rfl, .inr ⟨_, ?_, rfl⟩⟩
    unfold Offers
    rw [body]
    exact ⟨rfl, named, answer⟩
  | revoked _ _ ran =>
    obtain ⟨tokens, rfl⟩ := revokeToken_tokens ran
    exact ⟨rfl, rfl, rfl, rfl, Or.inl rfl⟩
  | decided =>
    unfold mergeDecision
    dsimp only
    rw [happly]
    exact ⟨rfl, rfl, rfl, rfl, Or.inl rfl⟩

/-- The effect of a foreign event on the merge tables: none, or one merge. -/
inductive EventStep (a : Applier) (peer : String) (e : JournalEntry) (s t : SiteState) : Prop where
  | kept (same : SameTables s t)
  | merged {recorded after : SiteState} (before : SameTables s recorded)
      (merge : Merged a peer e recorded after) (rest : SameTables after t)

variable {t : SiteState} {fetched : SiteState}

theorem EventStep.of_same (same : SameTables s fetched) (step : EventStep a peer e fetched t) :
    EventStep a peer e s t := by
  cases step with
  | kept rest => exact .kept (same.trans rest)
  | merged before merge rest => exact .merged (same.trans before) merge rest

theorem prefetchBlob_ok (ran : prefetchBlob a peer e s = .ok fetched) :
    ∃ blobs, FetchStep a peer e s.blobs blobs ∧ fetched = { s with blobs := blobs } := by
  unfold prefetchBlob at ran
  split at ran
  · cases ran
  · rename_i p body
    split at ran
    · cases ran
      exact ⟨s.blobs, .inl rfl, rfl⟩
    · rename_i hfetch
      simp only [Bool.or_eq_true, decide_eq_true_eq, Bool.not_eq_true', not_or,
        Bool.not_eq_false] at hfetch
      split at ran
      · rename_i answer
        cases ran
        refine ⟨_, .inr ⟨p.sha256, ?_, rfl⟩, rfl⟩
        unfold Offers
        rw [body]
        exact ⟨rfl, hfetch.1.1, hfetch.1.2, answer⟩
      · cases ran
  · cases ran
    exact ⟨s.blobs, .inl rfl, rfl⟩

/--
What an attempted event can do: leave the tables and the journal as they are, or
be recorded and merged.
-/
inductive Attempt (a : Applier) (peer : String) (e : JournalEntry) (s t : SiteState) : Prop where
  | kept (same : SameTables s t) (journal : t.journal = s.journal)
      (clock : s.clock.stamp ≤ t.clock.stamp)
  | merged (clock : HlcState) (blobs : Finset String) (stored : Event) {after : SiteState}
      (received : replHlcRecv e.hlc s.clock = .ok clock)
      (event : a.pg.storedEvent e = some stored)
      (merge : Merged a peer e { s with
        clock := clock
        blobs := blobs
        journal := s.journal.insertNew e.key ⟨stored, e.hlc, e.schemaVersion, a.startedAt⟩ } after)
      (rest : SameTables after t) (journal : t.journal = after.journal)
      (adopted : t.clock = after.clock)

theorem Attempt.step (attempt : Attempt a peer e s t) : EventStep a peer e s t := by
  cases attempt with
  | kept same journal clock => exact .kept same
  | merged clock blobs stored received event merge rest journal adopted =>
    refine .merged ?_ merge rest
    exact ⟨rfl, rfl, rfl, rfl, rfl⟩

/--
What an attempt comes to, the first one or one of a parked event: the event is parked, it is known
already, it is recorded and merged, or at most new bytes are left behind.
-/
inductive Attempted (a : Applier) (peer : String) (e : JournalEntry) (retried : Bool)
    (s : SiteState) : Outcome → Prop where
  | parked {t : SiteState} (blobs : Finset String) (reason : Option String)
      (bytes : FetchStep a peer e s.blobs blobs)
      (ran : parkEvent a.pg e reason { s with blobs := blobs } = .ok t) :
      Attempted a peer e retried s { state := t }
  | known (clock : HlcState) (blobs : Finset String) (bytes : FetchStep a peer e s.blobs blobs)
      (received : replHlcRecv e.hlc s.clock = .ok clock)
      (recorded : (s.journal.find e.key).isSome = true) :
      Attempted a peer e retried s { state := { s with clock := clock, blobs := blobs } }
  | merged {o : Outcome} (clock : HlcState) (blobs : Finset String) (stored : Event)
      (effect : Effect) (bytes : FetchStep a peer e s.blobs blobs)
      (received : replHlcRecv e.hlc s.clock = .ok clock)
      (event : a.pg.storedEvent e = some stored)
      (fresh : retried = false → s.journal.find e.key = none)
      (ran : dispatch a peer e { s with
        clock := clock
        blobs := blobs
        journal := s.journal.insertNew e.key ⟨stored, e.hlc, e.schemaVersion, a.startedAt⟩ } =
          .ok effect)
      (state : o.state = if retried then unparkEvent effect.state e.key else effect.state)
      (projected : o.projected = effect.pending) :
      Attempted a peer e retried s o
  | stopped {o : Outcome} (blobs : Finset String) (bytes : s.blobs ⊆ blobs)
      (state : o.state = { s with blobs := blobs }) (silent : o.projected = [])
      (fault : retried = false → o.fault ≠ none) : Attempted a peer e retried s o

theorem FetchStep.subset {before after : Finset String} (step : FetchStep a peer e before after) :
    before ⊆ after := by
  rcases step with rfl | ⟨sha, -, rfl⟩
  · exact Finset.Subset.refl _
  · exact Finset.subset_insert sha before

section Attempts

variable {retried : Bool} {blobs : Finset String}

section

variable (bytes : FetchStep a peer e s.blobs blobs)

include bytes

theorem park_attempted (reason : Option String) :
    Attempted a peer e retried s (park a e reason { s with blobs := blobs }) := by
  unfold park
  cases hpark : parkEvent a.pg e reason { s with blobs := blobs } with
  | error cause => exact .stopped blobs bytes.subset rfl rfl fun _ => Option.some_ne_none _
  | ok next => exact .parked blobs reason bytes hpark

variable (retried) in
theorem commit_attempted {clock : HlcState} {stored : Event}
    (received : replHlcRecv e.hlc s.clock = .ok clock) (event : a.pg.storedEvent e = some stored)
    (fresh : retried = false → s.journal.find e.key = none) (ran : dispatch a peer e { s with
      clock := clock
      blobs := blobs
      journal := s.journal.insertNew e.key ⟨stored, e.hlc, e.schemaVersion, a.startedAt⟩ } =
        .ok effect) :
    Attempted a peer e retried s (commit a e { s with blobs := blobs } effect
      (if retried then unparkEvent effect.state e.key else effect.state)) := by
  unfold commit
  split
  · exact .merged clock blobs stored effect bytes received event fresh ran rfl rfl
  · have hlast := (dispatch_merged ran).frame.2.2.2.2.subset
    exact .stopped effect.state.blobs (bytes.subset.trans hlast) rfl rfl
      fun _ => Option.some_ne_none _

theorem applyFetched_attempted :
    Attempted a peer e false s (applyFetched a peer e { s with blobs := blobs }) := by
  unfold applyFetched
  cases hforeign : applyForeignJournal a.pg a.startedAt e { s with blobs := blobs } with
  | error cause => exact .stopped blobs bytes.subset rfl rfl fun _ => Option.some_ne_none _
  | ok result =>
    obtain ⟨recorded, fresh⟩ := result
    obtain ⟨clock, stored, hrecv, hstored, rfl, rfl⟩ := applyForeignJournal_ok hforeign
    cases hfind : s.journal.find e.key with
    | some row =>
      simp only [Option.isNone_some, Bool.false_eq_true, if_false, Table.insertNew_of_some hfind]
      exact .known clock blobs bytes hrecv (by rw [hfind]; rfl)
    | none =>
      simp only [Option.isNone_none, if_true]
      split
      · rename_i effect hdispatch
        exact commit_attempted false bytes hrecv hstored (fun _ => hfind) hdispatch
      · exact park_attempted bytes _
      · exact .stopped blobs bytes.subset rfl rfl fun _ => Option.some_ne_none _

end

variable (a peer e s)

theorem applyOne_attempted : Attempted a peer e false s (applyOne a peer e s) := by
  unfold applyOne
  split
  · exact park_attempted (.inl rfl) _
  · split
    · rename_i fetched hprefetch
      obtain ⟨blobs, bytes, rfl⟩ := prefetchBlob_ok hprefetch
      exact applyFetched_attempted bytes
    · exact park_attempted (.inl rfl) _
    · exact .stopped s.blobs subset_rfl rfl rfl fun _ => Option.some_ne_none _

theorem retryOne_attempted : Attempted a peer e true s (retryOne a peer e s) := by
  unfold retryOne
  split
  · rename_i fetched hprefetch
    obtain ⟨blobs, bytes, rfl⟩ := prefetchBlob_ok hprefetch
    unfold retryFetched
    split
    · exact .stopped blobs bytes.subset rfl rfl nofun
    · rename_i recorded fresh hforeign
      obtain ⟨clock, stored, hrecv, hstored, rfl, -⟩ := applyForeignJournal_ok hforeign
      split
      · rename_i effect hdispatch
        exact commit_attempted true bytes hrecv hstored nofun hdispatch
      · exact .stopped blobs bytes.subset rfl rfl nofun
      · exact .stopped blobs bytes.subset rfl rfl nofun
  · exact .stopped s.blobs subset_rfl rfl rfl nofun

variable {a peer e s}

theorem Attempted.attempt {o : Outcome} (attempted : Attempted a peer e retried s o) :
    Attempt a peer e s o.state := by
  cases attempted with
  | parked blobs reason bytes ran =>
    obtain ⟨parked, rfl⟩ := parkEvent_ok ran
    exact .kept ⟨rfl, rfl, rfl, rfl, rfl⟩ rfl le_rfl
  | known clock blobs bytes received recorded =>
    exact .kept ⟨rfl, rfl, rfl, rfl, rfl⟩ rfl (replHlcRecv_ok received).2.1
  | merged clock blobs stored effect bytes received event fresh ran state =>
    rw [state]
    refine .merged clock blobs stored received event (dispatch_merged ran) ?_ ?_ ?_
    · cases retried with
      | false => exact .refl _
      | true => exact ⟨rfl, rfl, rfl, rfl, rfl⟩
    · cases retried <;> rfl
    · cases retried <;> rfl
  | stopped blobs bytes state =>
    rw [state]
    exact .kept ⟨rfl, rfl, rfl, rfl, rfl⟩ rfl le_rfl

end Attempts

theorem applyOne_step (a : Applier) (peer : String) (e : JournalEntry) (s : SiteState) :
    EventStep a peer e s (applyOne a peer e s).state :=
  (applyOne_attempted a peer e s).attempt.step

theorem retryOne_step (a : Applier) (peer : String) (e : JournalEntry) (s : SiteState) :
    EventStep a peer e s (retryOne a peer e s).state :=
  (retryOne_attempted a peer e s).attempt.step

inductive Delivery (a : Applier) (peer : String) (e : JournalEntry) (s t : SiteState) : Prop where
  | known (clock : HlcState) (blobs : Finset String)
      (bytes : FetchStep a peer e s.blobs blobs)
      (recorded : (s.journal.find e.key).isSome = true)
      (state : t = { s with clock := clock, blobs := blobs })
  | applied (clock : HlcState) (blobs : Finset String) (stored : Event)
      (bytes : FetchStep a peer e s.blobs blobs)
      (fresh : s.journal.find e.key = none)
      (merge : Merged a peer e { s with
        clock := clock
        blobs := blobs
        journal := s.journal.insertNew e.key ⟨stored, e.hlc, e.schemaVersion, a.startedAt⟩ } t)
  | parked (blobs : Finset String) (reason : Option String)
      (bytes : FetchStep a peer e s.blobs blobs)
      (ran : parkEvent a.pg e reason { s with blobs := blobs } = .ok t)

theorem applyOne_delivery (hdone : (applyOne a peer e s).fault = none) :
    Delivery a peer e s (applyOne a peer e s).state := by
  generalize applyOne a peer e s = o, applyOne_attempted a peer e s = attempted at hdone
  cases attempted with
  | parked blobs reason bytes ran => exact .parked blobs reason bytes ran
  | known clock blobs bytes _ recorded => exact .known clock blobs bytes recorded rfl
  | merged clock blobs stored effect bytes _ _ fresh ran state =>
    rw [state]
    exact .applied clock blobs stored bytes (fresh rfl) (dispatch_merged ran)
  | stopped _ _ _ _ fault => exact absurd hdone (fault rfl)

theorem prefetchSnapshotBlob_eq (a : Applier) (peer : String) (e : JournalEntry) (s : SiteState) :
    ∃ blobs, FetchStep a peer e s.blobs blobs ∧
      prefetchSnapshotBlob a peer e s = { s with blobs := blobs } := by
  unfold prefetchSnapshotBlob
  cases hran : prefetchBlob a peer e s with
  | error fault => exact ⟨s.blobs, .inl rfl, rfl⟩
  | ok fetched => exact prefetchBlob_ok hran

theorem importSnapshotEntry_merged (ran : importSnapshotEntry a peer e s = .ok effect) :
    Merged a.withoutEagerFeeds peer e s effect.state := by
  unfold importSnapshotEntry at ran
  cases hdispatch : dispatch a.withoutEagerFeeds peer e s with
  | error fault =>
    rw [hdispatch] at ran
    cases fault <;> cases ran
  | ok merged =>
    rw [hdispatch] at ran
    cases ran
    exact dispatch_merged hdispatch

theorem importManifest_step (a : Applier) (peer site : String) (p : ManifestPut) (s : SiteState) :
    EventStep a.withoutEagerFeeds peer (snapshotEntry site p) s
      (importManifest a peer site p s).state := by
  obtain ⟨blobs, -, hfetched⟩ := prefetchSnapshotBlob_eq a peer (snapshotEntry site p) s
  have hsame : SameTables s { s with blobs := blobs } := ⟨rfl, rfl, rfl, rfl, rfl⟩
  unfold importManifest
  dsimp only
  rw [hfetched]
  refine EventStep.of_same hsame ?_
  generalize { s with blobs := blobs } = fetched
  cases himport : importSnapshotEntry a peer (snapshotEntry site p) fetched with
  | error fault => exact .kept (.refl fetched)
  | ok effect =>
    dsimp only
    unfold commit
    split
    · exact .merged (.refl fetched) (importSnapshotEntry_merged himport) (.refl _)
    · exact .kept ⟨rfl, rfl, rfl, rfl, rfl⟩

/-! ## Snapshots -/

variable {site : String}

theorem importManifest_completed (hdone : (importManifest a peer site p s).fault = none) :
    ∃ blobs, Merged a.withoutEagerFeeds peer (snapshotEntry site p) { s with blobs := blobs }
      (importManifest a peer site p s).state := by
  obtain ⟨blobs, -, hfetched⟩ := prefetchSnapshotBlob_eq a peer (snapshotEntry site p) s
  refine ⟨blobs, ?_⟩
  unfold importManifest at hdone ⊢
  dsimp only at hdone ⊢
  rw [hfetched] at hdone ⊢
  cases himport : importSnapshotEntry a peer (snapshotEntry site p) { s with blobs := blobs } with
  | error fault =>
    rw [himport] at hdone
    cases hdone
  | ok effect =>
    simp only [himport] at hdone ⊢
    unfold commit at hdone ⊢
    split at hdone
    · rename_i hadmits
      rw [if_pos hadmits]
      exact importSnapshotEntry_merged himport
    · cases hdone

theorem importResolution_eq (peer : String) (s : SiteState) (r : ResolutionRecord) :
    ∃ resolutions, importResolution peer s r = { s with resolutions := resolutions } := by
  unfold importResolution
  split
  · exact ⟨s.resolutions, rfl⟩
  · exact ⟨_, rfl⟩

theorem importRevocation_ok (ran : importRevocation s hash = .ok next) :
    ∃ tokens, next = { s with tokens := tokens } := by
  unfold importRevocation at ran
  split at ran
  · cases ran
    exact ⟨s.tokens, rfl⟩
  · exact revokeToken_tokens ran

theorem finishBootstrap_same (peer : String) (snap : Snapshot) (s : SiteState) :
    SameTables s (adoptWatermark peer snap (advanceClockPastSnapshot snap s)) := by
  have hclock : SameTables s (advanceClockPastSnapshot snap s) := by
    unfold advanceClockPastSnapshot
    split
    · exact .refl s
    · split
      · exact ⟨rfl, rfl, rfl, rfl, rfl⟩
      · exact .refl s
  refine hclock.trans ?_
  unfold adoptWatermark
  split
  · exact ⟨rfl, rfl, rfl, rfl, rfl⟩
  · exact .refl _

theorem importQuarantine_eq (s : SiteState) (q : QuarantineRecord) :
    ∃ quarantine, importQuarantine s q = { s with quarantine := quarantine } := by
  unfold importQuarantine
  split
  · exact ⟨s.quarantine, rfl⟩
  · rw [applyQuarantineDecisionTx_eq]
    exact ⟨_, rfl⟩

theorem importConflict_eq (s : SiteState) (c : ConflictRecord) :
    ∃ quarantine conflicts,
      importConflict s c = { s with quarantine := quarantine, conflicts := conflicts } ∧
      ∀ row ∈ conflicts, row = c.row ∨ row ∈ s.conflicts := by
  unfold importConflict importConflictTx
  split
  · exact ⟨s.quarantine, s.conflicts, rfl, fun row hmem => .inr hmem⟩
  · rw [syncConflictQuarantineTx_eq]
    split
    · exact ⟨_, s.conflicts, rfl, fun row hmem => .inr hmem⟩
    · refine ⟨_, _, rfl, ?_⟩
      intro row hmem
      rcases List.mem_append.mp hmem with hold | hnew
      · exact .inr hold
      · exact .inl (List.mem_singleton.mp hnew)

/-- Invariant rule for a snapshot's restrictions, one premise for each of the four loops. -/
theorem applySnapshotRestrictions_invariant {Inv : SiteState → Prop} {snap : Snapshot}
    (registers : ∀ t q, Inv t → Inv (importQuarantine t q))
    (conflicts : ∀ t, ∀ c ∈ snap.conflicts, Inv t → Inv (importConflict t c))
    (decisions : ∀ t, ∀ r ∈ snap.resolutions, Inv t → Inv (importResolution peer t r))
    (revocations : ∀ t tokens, Inv t → Inv { t with tokens := tokens }) (start : Inv s)
    (ran : applySnapshotRestrictions peer snap s = .ok next) : Inv next := by
  have hrestricted := List.foldlRecOn snap.quarantine importQuarantine start
    fun t ht q _ => registers t q ht
  have hconflicted := List.foldlRecOn snap.conflicts importConflict hrestricted
    fun t ht c hmem => conflicts t c hmem ht
  have hdecided := List.foldlRecOn snap.resolutions (importResolution peer) hconflicted
    fun t ht r hmem => decisions t r hmem ht
  refine Fallible.foldlM_invariant Inv ?_ hdecided ran
  intro t hash u ht hran
  obtain ⟨tokens, rfl⟩ := importRevocation_ok hran
  exact revocations t tokens ht

/-! ## Local writes -/

inductive RowWritten (site : String) (req : PublishRequest) (h : HLC) (s t : SiteState) : Prop where
  | created (absent : s.hosted.find (req.feed, req.path) = none)
      (written : SameTables (writeHosted (req.feed, req.path) (publishedRow site req h) s) t)
  | republished {existing : HostedRow}
      (present : s.hosted.find (req.feed, req.path) = some existing)
      (mutables : existing.mutable = true ∧ req.mutable = true)
      (differs : existing.sha256 ≠ req.sha256)
      (written : SameTables
        (writeHosted (req.feed, req.path) (HostedRow.republish existing site req h) s) t)

variable {req : PublishRequest}

theorem RowWritten.trans_same {h : HLC} {u : SiteState} (row : RowWritten site req h s t)
    (same : SameTables t u) : RowWritten site req h s u := by
  cases row with
  | created absent written => exact .created absent (written.trans same)
  | republished present mutables differs written =>
    exact .republished present mutables differs (written.trans same)

/-- What a local publish does to the tables: nothing, or it writes one row. -/
inductive PublishStep (site : String) (req : PublishRequest) (s t : SiteState) : Prop where
  | kept (same : SameTables s t)
  | written (h : HLC) (row : RowWritten site req h s t)

theorem PublishStep.conflicts (step : PublishStep site req s t) : t.conflicts = s.conflicts := by
  cases step with
  | kept same => exact same.conflicts
  | written h row =>
    cases row with
    | created _ written | republished _ _ _ written => exact written.conflicts

variable {pg : Postgres}

theorem appendJournal_same {event : Event} {nowMs startedAt : Int}
    (ran : appendJournal pg site event nowMs startedAt s = .ok (next, e)) : SameTables s next := by
  obtain ⟨clock, seq, stored, -, -, -, -, hnext⟩ := appendJournal_ok ran
  rw [hnext]
  exact ⟨rfl, rfl, rfl, rfl, rfl⟩

theorem insertHostedTx_ok {nowMs : Int} {h : HLC} {created : Bool}
    (ran : insertHostedTx site req nowMs s = .ok (next, h, created)) :
    s.clock.stamp < h ∧ next.clock.stamp = h ∧ next.journal = s.journal ∧
      if created then RowWritten site req h s next
      else SameTables s next ∧ ∃ row, s.hosted.find (req.feed, req.path) = some row ∧
        row.sha256 = req.sha256 := by
  unfold insertHostedTx at ran
  cases hclock : replHlcNow nowMs s.clock with
  | error cause =>
    rw [hclock] at ran
    cases ran
  | ok stamped =>
    obtain ⟨clock, stamp⟩ := stamped
    obtain ⟨hstamp, hlater, -⟩ := replHlcNow_ok hclock
    rw [← hstamp] at hlater
    simp only [hclock] at ran
    cases hfind : s.hosted.find (req.feed, req.path) with
    | none =>
      simp only [hfind] at ran
      cases ran
      exact ⟨hlater, hstamp.symm, rfl, .created hfind ⟨rfl, rfl, rfl, rfl, rfl⟩⟩
    | some existing =>
      simp only [hfind] at ran
      split at ran
      · rename_i hsame
        cases ran
        exact ⟨hlater, hstamp.symm, rfl, ⟨rfl, rfl, rfl, rfl, rfl⟩, existing, rfl, hsame⟩
      · rename_i hdiffers
        split at ran
        · cases ran
        · rename_i hmutable
          cases ran
          have hmutables : existing.mutable = true ∧ req.mutable = true := by
            simpa using hmutable
          refine ⟨hlater, hstamp.symm, rfl, ?_⟩
          exact .republished hfind hmutables hdiffers ⟨rfl, rfl, rfl, rfl, rfl⟩

/--
A committed local publish: the stamp alone, or a row together with the journal
entries that announce it and its bytes.
-/
inductive PublishCommit (pg : Postgres) (site : String) (req : PublishRequest) (s : SiteState) :
    Published → Prop where
  | unannounced {t : SiteState} {h : HLC} (same : SameTables s t) (journal : t.journal = s.journal)
      (later : s.clock.stamp < h) (clock : t.clock.stamp = h) :
      PublishCommit pg site req s ⟨t, h, none⟩
  | announced {inserted middle t : SiteState} {h : HLC} {entry bytes : JournalEntry}
      (row : RowWritten site req h s t) (journal : inserted.journal = s.journal)
      (later : s.clock.stamp < h) (clock : inserted.clock.stamp = h)
      (first : Appended pg site (.manifestPut (.ok (req.payload h))) inserted middle entry)
      (second : Appended pg site (.blobAvailable (.ok ⟨req.sha256, req.size⟩)) middle t bytes) :
      PublishCommit pg site req s ⟨t, h, some entry⟩

variable {clock : TxClock} {done : Published}

/-- A publish that announces nothing found the row with its digest. -/
theorem insertWithJournal_commit (ran : insertWithJournal pg site req clock s = .ok done) :
    PublishCommit pg site req s done ∧ (done.entry = none →
      ∃ row, s.hosted.find (req.feed, req.path) = some row ∧ row.sha256 = req.sha256) := by
  unfold insertWithJournal at ran
  cases hinsert : insertHostedTx site req clock.stampMs s with
  | error fault =>
    rw [hinsert] at ran
    cases ran
  | ok result =>
    obtain ⟨inserted, h, created⟩ := result
    obtain ⟨hlater, hclock, hjournal, hrow⟩ := insertHostedTx_ok hinsert
    cases created with
    | false =>
      simp only [hinsert] at ran
      cases ran
      exact ⟨.unannounced hrow.1 hjournal hlater hclock, fun _ => hrow.2⟩
    | true =>
      simp only [hinsert] at ran
      cases happend : appendManifestPut pg site req h clock inserted with
      | error cause =>
        rw [happend] at ran
        cases ran
      | ok announced =>
        rw [happend] at ran
        cases ran
        obtain ⟨⟨middle, entry⟩, hfirst, happend⟩ := bind_eq_ok.mp happend
        obtain ⟨⟨last, bytes⟩, hsecond, happend⟩ := bind_eq_ok.mp happend
        cases happend
        have hsame := (appendJournal_same hfirst).trans (appendJournal_same hsecond)
        exact ⟨.announced (RowWritten.trans_same hrow hsame) hjournal hlater hclock
          (appendJournal_appended hfirst) (appendJournal_appended hsecond), nofun⟩

theorem insertWithJournal_step (ran : insertWithJournal pg site req clock s = .ok done) :
    PublishStep site req s done.state := by
  cases (insertWithJournal_commit ran).1 with
  | unannounced same => exact .kept same
  | announced row => exact .written _ row

variable {feed : String} {path coord keepSha operator : String}

theorem resolveConflict_commit {done : Resolved}
    (ran : resolveConflict pg site feed path coord keepSha operator clock s = .ok done) :
    ∃ side stamped decided, conflictSide pg s feed path keepSha = some side ∧
      SameTables s stamped ∧ s.clock.stamp < done.stamp ∧
      decided = applyResolutionTx pg feed path coord (SideMeta.decision side done.stamp) site
        (recordResolution feed path coord (SideMeta.decision side done.stamp) operator site
          stamped) ∧
      decided.journal = s.journal ∧ decided.clock.stamp = done.stamp ∧
      SameTables decided done.state ∧
      Appended pg site (.conflictResolve (.ok ⟨feed, path, coord, keepSha, operator⟩)) decided
        done.state done.entry := by
  unfold resolveConflict at ran
  split at ran
  · cases ran
  · cases hside : conflictSide pg s feed path keepSha with
    | none =>
      rw [hside] at ran
      cases ran
    | some side =>
      simp only [hside] at ran
      cases hclock : replHlcNow clock.stampMs s.clock with
      | error cause =>
        rw [hclock] at ran
        cases ran
      | ok stamped =>
        obtain ⟨row, h⟩ := stamped
        simp only [hclock] at ran
        split at ran
        · cases ran
        · rename_i announced entry happend
          cases ran
          obtain ⟨hstamp, hlater, -⟩ := replHlcNow_ok hclock
          rw [← hstamp] at hlater
          refine ⟨side, { s with clock := row }, _, rfl, ⟨rfl, rfl, rfl, rfl, rfl⟩, hlater, rfl,
            ?_, ?_, appendJournal_same happend, appendJournal_appended happend⟩
          · unfold applyResolutionTx
            rw [syncConflictQuarantineTx_eq]
            rfl
          · unfold applyResolutionTx
            rw [syncConflictQuarantineTx_eq]
            exact hstamp.symm

theorem resolveConflict_step {done : Resolved}
    (ran : resolveConflict pg site feed path coord keepSha operator clock s = .ok done) :
    ∃ side stamped, conflictSide pg s feed path keepSha = some side ∧ SameTables s stamped ∧
      SameTables (applyResolutionTx pg feed path coord (SideMeta.decision side done.stamp) site
        (recordResolution feed path coord (SideMeta.decision side done.stamp) operator site
          stamped)) done.state := by
  obtain ⟨side, stamped, decided, hside, hsame, -, rfl, -, -, hdone, -⟩ :=
    resolveConflict_commit ran
  exact ⟨side, stamped, hside, hsame, hdone⟩

/-- The effect of an operator's quarantine decision; the derived block is out of reach. -/
theorem handleQuarantine_step {coordinate reason detail : String} {replicating active : Bool}
    (ran : handleQuarantine pg site replicating feed coordinate reason detail active clock s =
      .ok next) :
    ∃ named h stamped, named ≠ crossSiteConflict ∧ SameTables s stamped ∧
      next = applyQuarantineDecisionTx feed coordinate named detail active h stamped := by
  unfold handleQuarantine at ran
  dsimp only at ran
  generalize (if reason = "" then "manual" else reason) = named at ran
  split at ran
  · cases ran
  · split at ran
    · cases ran
    · rename_i hnamed
      split at ran
      · split at ran
        · cases ran
        · rename_i announced entry happend
          cases ran
          exact ⟨named, entry.hlc, announced, hnamed, appendJournal_same happend, rfl⟩
      · split at ran
        · cases ran
        · rename_i row h hclock
          cases ran
          exact ⟨named, h, { s with clock := row }, hnamed, ⟨rfl, rfl, rfl, rfl, rfl⟩, rfl⟩

end FondacoFormal.Repl
