import FondacoFormal.Repl.Stream

/-!
# What the applier's statements accept

For every step of the applier, the exact inputs it takes: which stamps the clock
can receive, which tombstones can be written, which events a handler merges and
which it parks.
-/

namespace FondacoFormal.Repl

open Library State

/-- The applier with other readings of the local clock and of the database's. -/
def Applier.atTime (a : Applier) (now startedAt : Int) : Applier :=
  { a with now := now, startedAt := startedAt }

/-! ## Conditions -/

/-- Receiving the stamp keeps the logical counter within `BIGINT`. -/
def ClockFits (h : HLC) (clock : HlcState) : Prop :=
  (clock.wallMs < h.wall → -2 ^ 63 ≤ h.logical + 1 ∧ h.logical + 1 < 2 ^ 63) ∧
  (clock.wallMs = h.wall →
    -2 ^ 63 ≤ max clock.logical h.logical + 1 ∧ max clock.logical h.logical + 1 < 2 ^ 63)
  deriving Decidable

/-- The tombstone has valid text for its name, and no other token has that name. -/
def TombstoneFits (hash : String) (s : SiteState) : Prop :=
  ∃ start, cutText hash 16 = some start ∧ (s.tokens.find hash = none →
    ∀ other row, s.tokens.find other = some row → row.name ≠ "revoked:" ++ start)

def Mergeable (a : Applier) (e : JournalEntry) (s : SiteState) : Prop :=
  match e.event with
  | .manifestPut (.ok p) => Complete p ∧ Available a p s
  | .blobAvailable (.ok _) => True
  | .tokenRevoke (.ok p) => p.hash.utf8ByteSize = 64
  | .quarantineSet (.ok p) => Blocking p
  | .quarantineRelease (.ok _) => True
  | .conflictResolve (.ok p) => WellFormed p ∧ Recorded s p.feed p.path p.keepSha
  | _ => False

def RowFits (e : JournalEntry) (s : SiteState) : Prop :=
  match e.event with
  | .tokenRevoke (.ok p) => TombstoneFits p.hash s
  | _ => True

def Admitted (a : Applier) (e : JournalEntry) (s : SiteState) : Prop :=
  RowFits e s ∧ a.pg.admits s e = true

/-- A publish is parked before its transaction: malformed, or its bytes cannot be fetched. -/
def ParksEarly (a : Applier) (peer : String) (e : JournalEntry) (s : SiteState) : Prop :=
  match e.event with
  | .manifestPut (.error _) => True
  | .manifestPut (.ok p) => p.sha256 ≠ "" ∧ a.eager p.feed = true ∧ p.sha256 ∉ s.blobs ∧
      (a.fetch p.sha256 p.size peer).toOption = none
  | _ => False

/-- The digest in the message about missing bytes is not cut within a character. -/
def DigestReadable (e : JournalEntry) : Prop :=
  match e.event with
  | .manifestPut (.ok p) => (short p.sha256).isSome = true
  | _ => True

def BytesHere (a : Applier) (e : JournalEntry) (s : SiteState) : Prop :=
  ∀ p, e.event = .manifestPut (.ok p) → Complete p → Available a p s

/-! ## Statements -/

theorem bigint_accepts {n : Int} : (∃ m, bigint n = .ok m) ↔ -2 ^ 63 ≤ n ∧ n < 2 ^ 63 := by
  unfold bigint
  split
  · rename_i hrange
    exact ⟨fun _ => hrange, fun _ => ⟨n, rfl⟩⟩
  · rename_i hrange
    constructor
    · rintro ⟨m, hm⟩
      cases hm
    · intro hin
      exact absurd hin hrange

theorem recvLogical_accepts {h : HLC} {clock : HlcState} :
    (∃ logical, recvLogical h clock = .ok logical) ↔ ClockFits h clock := by
  unfold recvLogical ClockFits
  split
  · rename_i hahead
    rw [bigint_accepts]
    constructor
    · intro hfits
      exact ⟨fun _ => hfits, fun heq => absurd heq (by omega)⟩
    · intro hfits
      exact hfits.1 hahead
  · rename_i hbehind
    split
    · rename_i hlevel
      rw [bigint_accepts]
      constructor
      · intro hfits
        exact ⟨fun hahead => absurd hahead hbehind, fun _ => hfits⟩
      · intro hfits
        exact hfits.2 hlevel.symm
    · rename_i hlevel
      constructor
      · intro _
        exact ⟨fun hahead => absurd hahead hbehind, fun heq => absurd heq.symm hlevel⟩
      · intro _
        exact ⟨_, rfl⟩

theorem replHlcRecv_accepts {h : HLC} {clock : HlcState} :
    (∃ next, replHlcRecv h clock = .ok next) ↔ ClockFits h clock := by
  rw [← recvLogical_accepts]
  unfold replHlcRecv
  cases recvLogical h clock with
  | error cause =>
    constructor
    · rintro ⟨next, hnext⟩
      cases hnext
    · rintro ⟨logical, hlogical⟩
      cases hlogical
  | ok logical => exact ⟨fun _ => ⟨logical, rfl⟩, fun _ => ⟨_, rfl⟩⟩

theorem revokeToken_accepts {hash : String} {s : SiteState} :
    (∃ next, revokeToken hash s = .ok next) ↔ TombstoneFits hash s := by
  unfold revokeToken TombstoneFits
  cases hcut : cutText hash 16 with
  | none => simp
  | some start =>
    cases hfind : s.tokens.find hash with
    | some row => simp
    | none =>
      have htaken : (s.tokens.rows.any fun row => row.2.name = "revoked:" ++ start) = true ↔
          ∃ other row, s.tokens.find other = some row ∧ row.name = "revoked:" ++ start := by
        simp only [List.any_eq_true, decide_eq_true_eq, Prod.exists, Table.mem_rows_iff]
      by_cases hused : (s.tokens.rows.any fun row => row.2.name = "revoked:" ++ start) = true
      · simp only [hused, if_true]
        obtain ⟨other, row, hrow, hname⟩ := htaken.mp hused
        constructor
        · rintro ⟨next, hnext⟩
          cases hnext
        · rintro ⟨text, htext, hfree⟩
          cases htext
          exact absurd hname (hfree trivial other row hrow)
      · simp only [hused]
        constructor
        · intro _
          refine ⟨start, rfl, ?_⟩
          intro _ other row hrow hname
          exact hused (htaken.mpr ⟨other, row, hrow, hname⟩)
        · intro _
          exact ⟨_, rfl⟩

theorem park_completes {a : Applier} {e : JournalEntry} {reason : Option String}
    {s : SiteState} : (park a e reason s).fault = none ↔
      (a.pg.storedEvent e).isSome = true ∧ reason.isSome = true := by
  unfold park parkEvent
  cases a.pg.storedEvent e with
  | none => simp
  | some stored =>
    cases reason with
    | none => simp
    | some text =>
      dsimp only
      split
      · rename_i hran
        simp
      · rename_i hran
        split at hran <;> cases hran

theorem commit_completes {a : Applier} {e : JournalEntry} {before after : SiteState}
    {effect : Effect} : (commit a e before effect after).fault = none ↔
      a.pg.admits before e = true := by
  unfold commit
  split <;> simp_all

theorem takeBytes_isSome {chars : List Char} (hsizes : ∀ c ∈ chars, c.utf8Size = 1) (n : Nat) :
    (takeBytes chars n).isSome = true := by
  induction chars generalizing n with
  | nil => cases n <;> rfl
  | cons c rest ih =>
    cases n with
    | zero => rfl
    | succ n =>
      have hsize := hsizes c List.mem_cons_self
      have hrest := ih (fun other hmem => hsizes other (List.mem_cons_of_mem c hmem)) n
      simp [takeBytes, hsize, hrest]

variable {sha : String}

theorem short_isSome_of_isHex (hhex : isHex sha = true) : (short sha).isSome = true := by
  unfold short
  split
  · unfold cutText
    rw [Option.isSome_map]
    apply takeBytes_isSome
    intro c hmem
    have hrange := List.all_eq_true.mp hhex c hmem
    rw [Char.utf8Size_eq_one_iff]
    simp only [Bool.or_eq_true, Bool.and_eq_true, decide_eq_true_eq] at hrange
    rcases hrange with ⟨-, hle⟩ | ⟨-, hle⟩
    · exact UInt32.le_trans (show c.val ≤ '9'.val from hle) (by decide)
    · exact UInt32.le_trans (show c.val ≤ 'f'.val from hle) (by decide)
  · rfl

/-! ## Handlers -/

section Handlers

variable {a : Applier} {peer : String} {e : JournalEntry} {s : SiteState}

/-- What a handler does with an event: merge it, fail in a statement, or park it. -/
inductive HandlerOutcome (a : Applier) (e : JournalEntry) (s : SiteState) :
    Except Fault Effect → Prop where
  | merges {effect : Effect} (mergeable : Mergeable a e s) (fits : RowFits e s) :
      HandlerOutcome a e s (.ok effect)
  | fails {context : String} {cause : SqlCause} (mergeable : Mergeable a e s)
      (refused : ¬ RowFits e s) : HandlerOutcome a e s (.error (.sql context cause))
  | parks {message : Option String} (unmergeable : ¬ Mergeable a e s)
      (readable : BytesHere a e s → message.isSome = true) :
      HandlerOutcome a e s (.error (parkf message))

theorem mergeable_congr {t : SiteState} (hblobs : t.blobs = s.blobs)
    (hconflicts : t.conflicts = s.conflicts) : Mergeable a e t ↔ Mergeable a e s := by
  unfold Mergeable Available Recorded
  rw [hblobs, hconflicts]

theorem HandlerOutcome.congr {t : SiteState} {result : Except Fault Effect}
    (outcome : HandlerOutcome a e s result) (hblobs : t.blobs = s.blobs)
    (htokens : t.tokens = s.tokens) (hconflicts : t.conflicts = s.conflicts) :
    HandlerOutcome a e t result := by
  have hmergeable := mergeable_congr (a := a) (e := e) hblobs hconflicts
  have hfits : RowFits e t ↔ RowFits e s := by
    unfold RowFits TombstoneFits
    rw [htokens]
  have hbytes : BytesHere a e t ↔ BytesHere a e s := by
    unfold BytesHere Available
    rw [hblobs]
  cases outcome with
  | merges mergeable fits => exact .merges (hmergeable.mpr mergeable) (hfits.mpr fits)
  | fails mergeable refused =>
    exact .fails (hmergeable.mpr mergeable) fun fits => refused (hfits.mp fits)
  | parks unmergeable readable =>
    exact .parks (fun mergeable => unmergeable (hmergeable.mp mergeable))
      fun here => readable (hbytes.mp here)

theorem applyManifestPut_outcome {p : ManifestPut} (body : e.event = .manifestPut (.ok p)) :
    HandlerOutcome a e s (applyManifestPut a e (.ok p) s) := by
  have hmergeable : Mergeable a e s ↔ Complete p ∧ Available a p s := by
    unfold Mergeable
    rw [body]
  have hfits : RowFits e s := by
    unfold RowFits
    rw [body]
    trivial
  unfold applyManifestPut
  dsimp only
  split
  · rename_i hincomplete
    refine .parks ?_ fun _ => rfl
    rw [hmergeable]
    rintro ⟨complete, -⟩
    simp [complete.1, complete.2.1, complete.2.2] at hincomplete
  · rename_i hcomplete
    have complete : Complete p := by
      simpa [Complete, and_assoc] using hcomplete
    split
    · rename_i hmissing
      have hunavailable : ¬ Available a p s := by
        intro available
        simp only [hasBlob, Bool.and_eq_true, Bool.not_eq_true', decide_eq_false_iff_not]
          at hmissing
        exact hmissing.2 (available hmissing.1)
      refine .parks ?_ fun hbytes => absurd (hbytes p body complete) hunavailable
      rw [hmergeable]
      exact fun hboth => hunavailable hboth.2
    · rename_i hpresent
      have available : Available a p s := by
        intro heager
        simpa [heager, hasBlob] using hpresent
      split <;> exact .merges (hmergeable.mpr ⟨complete, available⟩) hfits

theorem applyTokenRevoke_outcome {p : TokenRevoke} (body : e.event = .tokenRevoke (.ok p)) :
    HandlerOutcome a e s (applyTokenRevoke (.ok p) s) := by
  have hmergeable : Mergeable a e s ↔ p.hash.utf8ByteSize = 64 := by
    unfold Mergeable
    rw [body]
  have hfits : RowFits e s ↔ TombstoneFits p.hash s := by
    unfold RowFits
    rw [body]
  unfold applyTokenRevoke
  dsimp only
  split
  · rename_i hsize
    exact .parks (fun hmerge => hsize (hmergeable.mp hmerge)) fun _ => rfl
  · rename_i hsize
    have hlength := hmergeable.mpr (not_not.mp hsize)
    cases hran : revokeToken p.hash s with
    | error cause =>
      refine .fails hlength ?_
      rw [hfits, ← revokeToken_accepts]
      rintro ⟨next, hnext⟩
      rw [hran] at hnext
      cases hnext
    | ok next => exact .merges hlength (hfits.mpr (revokeToken_accepts.mp ⟨next, hran⟩))

theorem applyConflictResolve_outcome {p : ConflictResolve}
    (body : e.event = .conflictResolve (.ok p)) :
    HandlerOutcome a e s (applyConflictResolve a e (.ok p) s) := by
  have hmergeable : Mergeable a e s ↔ WellFormed p ∧ Recorded s p.feed p.path p.keepSha := by
    unfold Mergeable
    rw [body]
  have hfits : RowFits e s := by
    unfold RowFits
    rw [body]
    trivial
  unfold applyConflictResolve
  dsimp only
  split
  · rename_i hmalformed
    refine .parks ?_ fun _ => rfl
    rw [hmergeable]
    rintro ⟨hwell, -⟩
    simp [hwell.1, hwell.2.1, hwell.2.2.1, hwell.2.2.2] at hmalformed
  · rename_i hwell
    have hwell : WellFormed p := by
      simpa [WellFormed, not_or, and_assoc] using hwell
    cases hside : conflictSide a.pg s p.feed p.path p.keepSha with
    | none =>
      refine .parks ?_ fun _ => ?_
      · rw [hmergeable]
        rintro ⟨-, hrecorded⟩
        have hfound : (conflictSide a.pg s p.feed p.path p.keepSha).isSome = true :=
          conflictSide_isSome.mpr hrecorded
        rw [hside] at hfound
        cases hfound
      · rw [Option.isSome_map]
        exact short_isSome_of_isHex hwell.2.2.2
    | some side =>
      refine .merges (hmergeable.mpr ⟨hwell, ?_⟩) hfits
      exact conflictSide_isSome.mp (by rw [hside]; rfl)

theorem dispatch_outcome (a : Applier) (peer : String) (e : JournalEntry) (s : SiteState) :
    HandlerOutcome a e s (dispatch a peer e s) := by
  have hmalformed : ∀ message : String,
      (Mergeable a e s → False) → HandlerOutcome a e s (.error (parkf (some message))) :=
    fun _ hnot => .parks hnot fun _ => rfl
  unfold dispatch
  cases hevent : e.event
  case unknown kind => exact hmalformed _ (by simp [Mergeable, hevent])
  all_goals rename_i body
  all_goals cases body
  case manifestPut.error | blobAvailable.error | tokenRevoke.error | quarantineSet.error |
    quarantineRelease.error | conflictResolve.error =>
    exact hmalformed _ (by simp [Mergeable, hevent])
  case manifestPut.ok p => exact applyManifestPut_outcome hevent
  case blobAvailable.ok p =>
    have hmerges : ∀ effect, HandlerOutcome a e s (.ok effect) :=
      fun _ => .merges (by simp [Mergeable, hevent]) (by simp [RowFits, hevent])
    simp only [applyBlobAvailable]
    split
    · exact hmerges _
    · split <;> exact hmerges _
  case tokenRevoke.ok p => exact applyTokenRevoke_outcome hevent
  case quarantineSet.ok p =>
    simp only [applyQuarantineSet]
    split
    · rename_i hincomplete
      refine hmalformed _ fun hmerge => ?_
      simp only [Mergeable, hevent] at hmerge
      simp [hmerge.1, hmerge.2.1, hmerge.2.2] at hincomplete
    · rename_i hcomplete
      have hblocking : Blocking p := by
        simpa [Blocking, and_assoc] using hcomplete
      exact .merges (by simpa [Mergeable, hevent] using hblocking) (by simp [RowFits, hevent])
  case quarantineRelease.ok p =>
    exact .merges (by simp [Mergeable, hevent]) (by simp [RowFits, hevent])
  case conflictResolve.ok p => exact applyConflictResolve_outcome hevent

theorem prefetchBlob_cases (a : Applier) (peer : String) (e : JournalEntry) (s : SiteState) :
    (ParksEarly a peer e s ∧ ∃ reason, prefetchBlob a peer e s = .error (.park reason) ∧
      (reason.isSome = true ↔ DigestReadable e)) ∨
    (¬ ParksEarly a peer e s ∧
      prefetchBlob a peer e s = .ok (prefetchSnapshotBlob a peer e s)) := by
  unfold prefetchSnapshotBlob
  unfold ParksEarly DigestReadable prefetchBlob
  cases e.event with
  | manifestPut body =>
    cases body with
    | error message => exact .inl ⟨trivial, _, rfl, by simp⟩
    | ok p =>
      dsimp only
      split
      · rename_i hskip
        refine .inr ⟨?_, rfl⟩
        rintro ⟨hnamed, heager, hmissing, -⟩
        simp [hnamed, heager, hasBlob, hmissing] at hskip
      · rename_i hfetch
        simp only [hasBlob, Bool.or_eq_true, decide_eq_true_eq, Bool.not_eq_true', not_or,
          Bool.not_eq_false] at hfetch
        cases hanswer : a.fetch p.sha256 p.size peer with
        | ok done =>
          refine .inr ⟨?_, rfl⟩
          rintro ⟨-, -, -, hfailed⟩
          cases hfailed
        | error message =>
          refine .inl ⟨⟨hfetch.1.1, hfetch.1.2, hfetch.2, rfl⟩, _, rfl, ?_⟩
          simp
  | blobAvailable | tokenRevoke | quarantineSet | quarantineRelease | conflictResolve | unknown =>
    exact .inr ⟨id, rfl⟩

theorem bytesHere_prefetched (hlate : ¬ ParksEarly a peer e s) :
    BytesHere a e (prefetchSnapshotBlob a peer e s) := by
  intro p body complete heager
  have hnamed : p.sha256 ≠ "" := by
    rintro hempty
    have hsize := complete.2.2
    rw [hempty] at hsize
    revert hsize
    decide
  unfold prefetchSnapshotBlob prefetchBlob
  rw [body]
  by_cases hhere : p.sha256 ∈ s.blobs
  · simp [hasBlob, hhere]
  · cases hanswer : a.fetch p.sha256 p.size peer with
    | ok done => simp [hasBlob, hhere, heager, hnamed, hanswer, storeBlob]
    | error message =>
      refine absurd ?_ hlate
      unfold ParksEarly
      rw [body]
      exact ⟨hnamed, heager, hhere, by rw [hanswer]; rfl⟩

theorem offered_prefetched {p : ManifestPut} (body : e.event = .manifestPut (.ok p))
    (hoffers : Offers a peer e sha) : sha ∈ (prefetchSnapshotBlob a peer e s).blobs := by
  unfold Offers at hoffers
  rw [body] at hoffers
  obtain ⟨rfl, hnamed, heager, hanswer⟩ := hoffers
  unfold prefetchSnapshotBlob prefetchBlob
  rw [body]
  by_cases hhere : p.sha256 ∈ s.blobs
  · simp [hasBlob, hhere]
  · simp [hasBlob, hhere, heager, hnamed, hanswer, storeBlob]

/-- The bytes a publish offers are fetched before its transaction, so however that ends they are
here; no other event offers bytes at that time. -/
theorem prefetched_offers (hoffers : Offers a peer e sha)
    (hnotice : ∀ p, e.event ≠ .blobAvailable (.ok p)) :
    sha ∈ (prefetchSnapshotBlob a peer e s).blobs := by
  cases hevent : e.event with
  | manifestPut body =>
    cases body with
    | ok p => exact offered_prefetched hevent hoffers
    | error message => simp [Offers, hevent] at hoffers
  | blobAvailable body =>
    cases body with
    | ok p => exact absurd hevent (hnotice p)
    | error message => simp [Offers, hevent] at hoffers
  | tokenRevoke | quarantineSet | quarantineRelease | conflictResolve | unknown =>
    simp [Offers, hevent] at hoffers

def RetryFits (a : Applier) (peer : String) (s : SiteState) (e : JournalEntry) : Prop :=
  ¬ ParksEarly a peer e s → (a.pg.storedEvent e).isSome = true ∧ ClockFits e.hlc s.clock ∧
    (Mergeable a e (prefetchSnapshotBlob a peer e s) →
      Admitted a e (prefetchSnapshotBlob a peer e s))

/-- What becomes of a retried event: it waits on, or it is applied and no longer parked. -/
inductive Retrial (a : Applier) (peer : String) (e : JournalEntry) (s t : SiteState) : Prop where
  | waits (blobs : Finset String) (bytes : FetchStep a peer e s.blobs blobs)
      (state : t = { s with blobs := blobs }) (unmergeable : ¬ Mergeable a e t)
      (offered : ∀ sha, Offers a peer e sha → sha ∈ blobs)
  | applied (clock : HlcState) (blobs : Finset String) (stored : Event) {after : SiteState}
      (bytes : FetchStep a peer e s.blobs blobs)
      (merge : Merged a peer e { s with
        clock := clock
        blobs := blobs
        journal := s.journal.insertNew e.key ⟨stored, e.hlc, e.schemaVersion, a.startedAt⟩ } after)
      (state : t = unparkEvent after e.key)

theorem ParksEarly.retrial (hearly : ParksEarly a peer e s) : Retrial a peer e s s := by
  have hwaits : ¬ Mergeable a e s ∧ ∀ sha, ¬ Offers a peer e sha := by
    unfold ParksEarly at hearly
    unfold Mergeable Offers
    split at hearly
    · rename_i hevent
      rw [hevent]
      exact ⟨id, fun _ => id⟩
    · rename_i hevent
      rw [hevent]
      refine ⟨fun hboth => hearly.2.2.1 (hboth.2 hearly.2.1), fun sha hoffers => ?_⟩
      have hfailed := hearly.2.2.2
      rw [hoffers.2.2.2] at hfailed
      cases hfailed
    · cases hearly
  exact .waits s.blobs (.inl rfl) rfl hwaits.1 fun sha hoffers => absurd hoffers (hwaits.2 sha)

/-- How a retry of an event ends whose entry can be recorded. -/
inductive Retried (a : Applier) (peer : String) (e : JournalEntry) (s : SiteState) :
    Outcome → Prop where
  | merges (clock : HlcState) (stored : Event) {effect : Effect} (mergeable : Mergeable a e s)
      (fits : RowFits e s)
      (merge : Merged a peer e { s with
        clock := clock
        journal := s.journal.insertNew e.key ⟨stored, e.hlc, e.schemaVersion, a.startedAt⟩ }
        effect.state) :
      Retried a peer e s (commit a e s effect (unparkEvent effect.state e.key))
  | fails {fault : Fault} (mergeable : Mergeable a e s) (refused : ¬ RowFits e s) :
      Retried a peer e s { state := s, fault := some fault }
  | parks (unmergeable : ¬ Mergeable a e s) : Retried a peer e s { state := s }

theorem retryFetched_retried (hstored : (a.pg.storedEvent e).isSome = true)
    (hclock : ClockFits e.hlc s.clock) : Retried a peer e s (retryFetched a peer e s) := by
  obtain ⟨stored, hevent⟩ := Option.isSome_iff_exists.mp hstored
  obtain ⟨clock, hrecv⟩ := replHlcRecv_accepts.mpr hclock
  unfold retryFetched
  rw [applyForeignJournal_eq_ok hrecv hevent]
  dsimp only
  have houtcome := (dispatch_outcome a peer e { s with
    clock := clock
    journal := s.journal.insertNew e.key ⟨stored, e.hlc, e.schemaVersion, a.startedAt⟩ }).congr
      (t := s) rfl rfl rfl
  generalize hdispatch : dispatch a peer e _ = result at houtcome ⊢
  cases houtcome with
  | merges mergeable fits => exact .merges clock stored mergeable fits (dispatch_merged hdispatch)
  | fails mergeable refused => exact .fails mergeable refused
  | parks unmergeable => exact .parks unmergeable

theorem retryOne_retrial (hfits : RetryFits a peer s e) :
    (retryOne a peer e s).fault = none ∧ Retrial a peer e s (retryOne a peer e s).state := by
  unfold retryOne
  rcases prefetchBlob_cases a peer e s with ⟨hearly, reason, hran, -⟩ | ⟨hlate, hran⟩
  · rw [hran]
    exact ⟨rfl, hearly.retrial⟩
  · rw [hran]
    obtain ⟨hstored, hclock, hadmitted⟩ := hfits hlate
    have hoffered : ∀ sha, Offers a peer e sha → ¬ Mergeable a e (prefetchSnapshotBlob a peer e s) →
        sha ∈ (prefetchSnapshotBlob a peer e s).blobs :=
      fun sha hoffers hnot =>
        prefetched_offers hoffers fun p hevent => hnot (by simp [Mergeable, hevent])
    obtain ⟨blobs, hbytes, hfetched⟩ := prefetchSnapshotBlob_eq a peer e s
    rw [hfetched] at hadmitted hoffered ⊢
    dsimp only
    have hretried := @retryFetched_retried a peer e { s with blobs := blobs } hstored hclock
    generalize retryFetched a peer e { s with blobs := blobs } = outcome at hretried ⊢
    cases hretried with
    | merges clock stored mergeable fits merge =>
      simp only [commit, (hadmitted mergeable).2, if_true]
      exact ⟨trivial, .applied clock blobs stored hbytes merge rfl⟩
    | fails mergeable refused => exact absurd (hadmitted mergeable).1 refused
    | parks unmergeable =>
      refine ⟨rfl, .waits blobs hbytes rfl unmergeable ?_⟩
      exact fun sha hoffers => hoffered sha hoffers unmergeable

end Handlers

/-! ## Merged events -/

section Merged

variable {a : Applier} {peer : String} {e : JournalEntry} {s t : SiteState}

section Fetched

variable {before between after : Finset String}

theorem FetchStep.offers (step : FetchStep a peer e before after) :
    ∀ sha ∈ after, sha ∈ before ∨ Offers a peer e sha := by
  intro sha hmem
  rcases step with rfl | ⟨other, hoffers, rfl⟩
  · exact .inl hmem
  · rcases Finset.mem_insert.mp hmem with rfl | hold
    · exact .inr hoffers
    · exact .inl hold

theorem FetchStep.offers_again (step : FetchStep a peer e before between)
    (again : FetchStep a peer e between after) :
    ∀ sha ∈ after, sha ∈ before ∨ Offers a peer e sha := by
  intro sha hmem
  rcases again.offers sha hmem with hold | hoffers
  · exact step.offers sha hold
  · exact .inr hoffers

end Fetched

theorem Mergeable.mono (hmerge : Mergeable a e s) (hblobs : s.blobs ⊆ t.blobs)
    (hrecorded : ∀ feed path sha, Recorded s feed path sha → Recorded t feed path sha) :
    Mergeable a e t := by
  unfold Mergeable at hmerge ⊢
  split at hmerge
  · rename_i p _
    exact ⟨hmerge.1, fun heager => hblobs (hmerge.2 heager)⟩
  · trivial
  · exact hmerge
  · exact hmerge
  · trivial
  · exact ⟨hmerge.1, hrecorded _ _ _ hmerge.2⟩
  · cases hmerge

theorem Merged.mergeable (hmerged : Merged a peer e s t) : Mergeable a e s := by
  unfold Mergeable
  cases hmerged with
  | resolved body complete available | inserted body complete available
  | newer body complete available | older body complete available
  | repeated body complete available | conflicted body complete available =>
    rw [body]
    exact ⟨complete, available⟩
  | noticed body | fetched body | released body =>
    rw [body]
    trivial
  | revoked body digest =>
    rw [body]
    exact digest
  | blocked body blocking =>
    rw [body]
    exact blocking
  | decided body wellFormed recorded =>
    rw [body]
    exact ⟨wellFormed, conflictSide_isSome.mp (by rw [recorded]; rfl)⟩

theorem Merged.offered (hmerged : Merged a peer e s t) (hoffers : Offers a peer e sha) :
    sha ∈ t.blobs := by
  have hbytes := FetchStep.subset hmerged.frame.2.2.2.2
  unfold Offers at hoffers
  cases hmerged with
  | resolved body complete available | inserted body complete available
  | newer body complete available | older body complete available
  | repeated body complete available | conflicted body complete available =>
    rw [body] at hoffers
    obtain ⟨rfl, -, heager, -⟩ := hoffers
    exact hbytes (available heager)
  | noticed body useless =>
    rw [body] at hoffers
    obtain ⟨rfl, hnamed, hanswer⟩ := hoffers
    rcases useless with hempty | hhere | hfailed
    · exact absurd hempty hnamed
    · exact hhere
    · rw [hanswer] at hfailed
      cases hfailed
  | fetched body =>
    rw [body] at hoffers
    obtain ⟨rfl, -, -⟩ := hoffers
    exact Finset.mem_insert_self _ _
  | revoked body | blocked body | released body | decided body =>
    rw [body] at hoffers
    cases hoffers

theorem Retrial.shrinks (retrial : Retrial a peer e s t) :
    t.parked.length ≤ s.parked.length ∧ s.blobs ⊆ t.blobs := by
  cases retrial with
  | waits blobs hfetch hstate unmergeable offered =>
    subst hstate
    exact ⟨le_rfl, hfetch.subset⟩
  | applied clock blobs stored hfetch merge hstate =>
    obtain ⟨-, hparked, -, -, hlast⟩ := merge.frame
    subst hstate
    refine ⟨?_, hfetch.subset.trans hlast.subset⟩
    rw [show s.parked.length = _ from congrArg List.length hparked.symm]
    exact List.length_filter_le _ _

theorem Retrial.stays (retrial : Retrial a peer e s t) (hparked : ∃ row ∈ s.parked, row.entry = e)
    (hlength : s.parked.length ≤ t.parked.length) (hblobs : t.blobs ⊆ s.blobs) :
    t = s ∧ ¬ Mergeable a e s ∧ ∀ sha, Offers a peer e sha → sha ∈ s.blobs := by
  cases retrial with
  | waits blobs hfetch hstate unmergeable offered =>
    subst hstate
    obtain rfl : blobs = s.blobs := hblobs.antisymm hfetch.subset
    exact ⟨rfl, unmergeable, offered⟩
  | applied clock blobs stored hfetch merge hstate =>
    obtain ⟨-, hsame, -⟩ := merge.frame
    obtain ⟨row, hrow, rfl⟩ := hparked
    subst hstate
    refine absurd hlength (Nat.not_le.mpr ?_)
    rw [show s.parked.length = _ from congrArg List.length hsame.symm]
    refine List.length_filter_lt_length_iff_exists.mpr ⟨row, ?_, ?_⟩
    · rw [hsame]
      exact hrow
    · simp [ParkedRow.hasKey]

theorem Merged.atTime {now startedAt : Int}
    (hmerged : Merged (a.atTime now startedAt) peer e s t) : Merged a peer e s t := by
  cases hmerged with
  | resolved body complete available stored => exact .resolved body complete available stored
  | inserted body complete available undecided absent =>
    exact .inserted body complete available undecided absent
  | newer body complete available undecided present mutables later =>
    exact .newer body complete available undecided present mutables later
  | older body complete available undecided present mutables earlier =>
    exact .older body complete available undecided present mutables earlier
  | repeated body complete available undecided present immutables same =>
    exact .repeated body complete available undecided present immutables same
  | conflicted body complete available undecided present immutables differs =>
    exact .conflicted body complete available undecided present immutables differs
  | noticed body useless => exact .noticed body useless
  | fetched body named answer => exact .fetched body named answer
  | revoked body digest ran => exact .revoked body digest ran
  | blocked body blocking => exact .blocked body blocking
  | released body => exact .released body
  | decided body wellFormed recorded => exact .decided body wellFormed recorded

end Merged

end FondacoFormal.Repl
