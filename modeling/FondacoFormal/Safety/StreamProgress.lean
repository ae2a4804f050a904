import FondacoFormal.Repl.Acceptance

/-!
# Whether a batch gets through

A batch of a peer's entries completes exactly when every entry can be settled in the state it
meets. Most entries can: malformed and premature ones are parked.
-/

namespace FondacoFormal.Safety

open Library Library.Runs State Repl

def Settleable (a : Applier) (peer : String) (s : SiteState) (e : JournalEntry) : Prop :=
  (a.pg.storedEvent e).isSome = true ∧
  (a.skew e ≤ a.maxSkew →
    (ParksEarly a peer e s → DigestReadable e) ∧
    (¬ ParksEarly a peer e s → ClockFits e.hlc s.clock ∧
      (s.journal.find e.key = none → Mergeable a e (prefetchSnapshotBlob a peer e s) →
        Admitted a e (prefetchSnapshotBlob a peer e s))))

/-! ## One entry -/

section Entry

variable {a : Applier} {peer : String} {e : JournalEntry} {s : SiteState}

theorem applyFetched_completes (hstored : (a.pg.storedEvent e).isSome = true)
    (hbytes : BytesHere a e s) : (applyFetched a peer e s).fault = none ↔
      ClockFits e.hlc s.clock ∧
        (s.journal.find e.key = none → Mergeable a e s → Admitted a e s) := by
  obtain ⟨stored, hevent⟩ := Option.isSome_iff_exists.mp hstored
  unfold applyFetched
  cases hrecv : replHlcRecv e.hlc s.clock with
  | error cause =>
    have hnot : ¬ ClockFits e.hlc s.clock := by
      simp [← replHlcRecv_accepts, hrecv]
    have hran : applyForeignJournal a.pg a.startedAt e s = .error cause := by
      unfold applyForeignJournal
      rw [hrecv]
      rfl
    simp [hran, hnot]
  | ok clock =>
    have hfits : ClockFits e.hlc s.clock := replHlcRecv_accepts.mp ⟨clock, hrecv⟩
    rw [applyForeignJournal_eq_ok hrecv hevent]
    cases hfind : s.journal.find e.key with
    | some row => simp [hfits]
    | none =>
      simp only [Option.isNone_none, if_true, hfits, true_and, forall_const]
      -- The handler sees the tables of the state before, so its conditions are the same.
      have houtcome := (dispatch_outcome a peer e { s with
        clock := clock
        journal := s.journal.insertNew e.key
          ⟨stored, e.hlc, e.schemaVersion, a.startedAt⟩ }).congr (t := s) rfl rfl rfl
      generalize dispatch a peer e _ = result at houtcome ⊢
      cases houtcome with
      | merges mergeable fits =>
        dsimp only
        rw [commit_completes]
        exact ⟨fun hadmits _ => ⟨fits, hadmits⟩, fun hcond => (hcond mergeable).2⟩
      | fails mergeable refused =>
        dsimp only
        refine iff_of_false (Option.some_ne_none _) fun hcond => refused (hcond mergeable).1
      | parks unmergeable readable =>
        dsimp only [parkf]
        rw [park_completes, Option.isSome_map]
        exact iff_of_true ⟨hstored, readable hbytes⟩ fun hmerge => absurd hmerge unmergeable

theorem applyOne_completes : (applyOne a peer e s).fault = none ↔ Settleable a peer s e := by
  unfold applyOne Settleable
  split
  · rename_i hskew
    rw [park_completes]
    simp [not_le.mpr hskew]
  · rename_i hskew
    have hnear : a.skew e ≤ a.maxSkew := not_lt.mp hskew
    simp only [hnear, forall_const]
    rcases prefetchBlob_cases a peer e s with ⟨hearly, reason, hran, hreason⟩ | ⟨hlate, hran⟩
    · rw [hran]
      simp only [hearly, forall_const, not_true_eq_false, false_implies, and_true]
      rw [park_completes, hreason]
    · rw [hran]
      simp only [hlate, false_implies, true_and, not_false_eq_true, forall_const]
      obtain ⟨blobs, -, hfetched⟩ := prefetchSnapshotBlob_eq a peer e s
      have hclock := congrArg SiteState.clock hfetched
      have hjournal := congrArg SiteState.journal hfetched
      by_cases hstored : (a.pg.storedEvent e).isSome = true
      · simp only [hstored, true_and]
        rw [applyFetched_completes hstored (bytesHere_prefetched hlate), hclock, hjournal]
      · -- The journal refuses the entry before anything else is tried.
        simp only [hstored]
        have hnone : a.pg.storedEvent e = none := by
          simpa using hstored
        unfold applyFetched
        cases hran : applyForeignJournal a.pg a.startedAt e (prefetchSnapshotBlob a peer e s) with
        | error cause => simp
        | ok result =>
          obtain ⟨next, fresh⟩ := result
          obtain ⟨clock, stored, -, hsome, -⟩ := applyForeignJournal_ok hran
          rw [hnone] at hsome
          cases hsome

end Entry

/-! ## A whole batch -/

variable {e : JournalEntry} {s : SiteState}

section Batch

variable {a : Applier} {peer : String}

def deliver (a : Applier) (peer : String) (e : JournalEntry) (s : SiteState) : SiteState :=
  (applyOne a peer e s).state

variable {entries : List JournalEntry}

theorem applyBatch_cons (hsite : peer ≠ a.site) (hentry : e.originSite = peer)
    (rest : List JournalEntry) (s : SiteState) : applyBatch a peer (e :: rest) s =
      (applyOne a peer e s).andThen (applyBatch a peer rest) := by
  rw [applyBatch, if_neg (hentry ▸ hsite), if_pos hentry]

theorem applyBatch_completes (hsite : peer ≠ a.site) (hpeer : ∀ e ∈ entries, e.originSite = peer)
    (s : SiteState) :
    (applyBatch a peer entries s).fault = none ↔
      Meets (deliver a peer) (Settleable a peer) entries s := by
  induction entries generalizing s with
  | nil => simp [applyBatch, Meets]
  | cons e rest ih =>
    have hrest := ih (fun other hmem => hpeer other (List.mem_cons_of_mem e hmem))
      (applyOne a peer e s).state
    unfold Meets
    rw [applyBatch_cons hsite (hpeer e List.mem_cons_self), ← applyOne_completes]
    constructor
    · intro hdone
      obtain ⟨hfirst, hlater, -⟩ := Outcome.andThen_completed hdone
      exact ⟨hfirst, hrest.mp hlater⟩
    · rintro ⟨hfirst, hlater⟩
      unfold Outcome.andThen
      rw [hfirst]
      exact hrest.mpr hlater

theorem applyBatch_state (hsite : peer ≠ a.site) (hpeer : ∀ e ∈ entries, e.originSite = peer)
    (hdone : (applyBatch a peer entries s).fault = none) :
    (applyBatch a peer entries s).state = runAll (deliver a peer) entries s := by
  induction entries generalizing s with
  | nil => rfl
  | cons e rest ih =>
    rw [applyBatch_cons hsite (hpeer e List.mem_cons_self)] at hdone ⊢
    obtain ⟨-, hlater, hstate⟩ := Outcome.andThen_completed hdone
    rw [hstate]
    exact ih (fun other hmem => hpeer other (List.mem_cons_of_mem e hmem)) hlater

def Journaled (e : JournalEntry) (s : SiteState) : Prop :=
  (s.journal.find e.key).isSome = true

def IsParked (e : JournalEntry) (s : SiteState) : Prop :=
  ∃ row ∈ s.parked, row.entry.key = e.key

def EffectCommitted (a : Applier) (peer : String) (e : JournalEntry) (s : SiteState) : Prop :=
  Journaled e s ∨ ∃ recorded, SameTables s recorded ∧ Merged a peer e recorded (deliver a peer e s)

theorem delivery_keeps {e other : JournalEntry} {s t : SiteState}
    (delivery : Delivery a peer e s t) :
    (Journaled other s → Journaled other t) ∧ (IsParked other s → IsParked other t) := by
  unfold Journaled IsParked
  cases delivery with
  | known clock blobs bytes recorded hstate =>
    subst hstate
    exact ⟨id, id⟩
  | applied clock blobs stored bytes fresh merge =>
    obtain ⟨hjournal, hparked, -⟩ := merge.frame
    rw [hjournal, hparked]
    refine ⟨?_, id⟩
    intro hfound
    by_cases heq : other.key = e.key
    · rw [heq, Table.find_insertNew_self]
      rfl
    · rw [Table.find_insertNew_of_ne _ _ heq]
      exact hfound
  | parked blobs reason bytes ran =>
    refine ⟨?_, ?_⟩
    · obtain ⟨parked, hstate⟩ := parkEvent_ok ran
      rw [hstate]
      exact id
    · rintro ⟨row, hmem, hkey⟩
      obtain ⟨kept, hkept, hsame⟩ := parkEvent_keeps ran hmem
      exact ⟨kept, hkept, by rw [hsame]; exact hkey⟩

theorem delivery_ends {s t : SiteState} (delivery : Delivery a peer e s t) :
    Journaled e t ∧ (Journaled e s ∨ ∃ recorded, SameTables s recorded ∧
      Merged a peer e recorded t) ∨ IsParked e t := by
  unfold Journaled IsParked
  cases delivery with
  | known clock blobs bytes recorded hstate =>
    subst hstate
    exact .inl ⟨recorded, .inl recorded⟩
  | applied clock blobs stored bytes fresh merge =>
    refine .inl ⟨?_, .inr ⟨_, ?_, merge⟩⟩
    · rw [merge.frame.1, Table.find_insertNew_self]
      rfl
    · exact ⟨rfl, rfl, rfl, rfl, rfl⟩
  | parked blobs reason bytes ran => exact .inr (parkEvent_parked ran)

theorem settled_keeps (hmeets : Meets (deliver a peer) (Settleable a peer) entries s) :
    (Journaled e s → Journaled e (runAll (deliver a peer) entries s)) ∧
      (IsParked e s → IsParked e (runAll (deliver a peer) entries s)) := by
  have hstep : ∀ t other, Settleable a peer t other →
      Delivery a peer other t (deliver a peer other t) :=
    fun t other hcond => applyOne_delivery (applyOne_completes.mpr hcond)
  constructor
  · refine fun hjournaled => invariant_runAll (P := Journaled e) ?_ hjournaled hmeets
    exact fun t other hold hcond => (delivery_keeps (hstep t other hcond)).1 hold
  · refine fun hparked => invariant_runAll (P := IsParked e) ?_ hparked hmeets
    exact fun t other hold hcond => (delivery_keeps (hstep t other hcond)).2 hold

theorem movePast_eq (peer uuid : String) (entries : List JournalEntry) (s : SiteState) :
    ∃ cursors, movePast peer uuid entries s = { s with cursors := cursors } := by
  unfold movePast
  split
  · exact ⟨s.cursors, rfl⟩
  · exact ⟨_, rfl⟩

theorem movePast_cursor {peer uuid : String} {last : JournalEntry}
    (hlast : entries.getLast? = some last) (s : SiteState) :
    (getCursor (movePast peer uuid entries s) peer peer).appliedSeq = last.originSeq := by
  unfold movePast getCursor
  rw [hlast]
  simp only [setCursor, Table.find_upsert_self, Option.getD_some]
  cases s.cursors.find (peer, peer) <;> rfl

/--
The page was applied: no error, every entry ends in the journal with its effect
committed or among the parked events, and the cursor is at the last entry.
-/
structure PageSettles (a : Applier) (peer uuid : String) (entries : List JournalEntry)
    (s : SiteState) : Prop where
  completes : (applyPage a peer uuid entries s).fault = none
  settles : ∀ done e rest, entries = done ++ e :: rest →
    Journaled e (applyPage a peer uuid entries s).state ∧
      EffectCommitted a peer e (runAll (deliver a peer) done s) ∨
    IsParked e (applyPage a peer uuid entries s).state
  moves : ∀ last, entries.getLast? = some last →
    (getCursor (applyPage a peer uuid entries s).state peer peer).appliedSeq = last.originSeq

/--
A page of entries attributed to the serving peer is applied, whatever its
entries are, exactly when every entry can be settled in the state it meets.
-/
theorem page_settles_iff (a : Applier) (peer uuid : String) (entries : List JournalEntry)
    (s : SiteState) (hsite : peer ≠ a.site) (hpeer : ∀ e ∈ entries, e.originSite = peer) :
    PageSettles a peer uuid entries s ↔
      Meets (deliver a peer) (Settleable a peer) entries s := by
  rw [← applyBatch_completes hsite hpeer]
  constructor
  · intro hsettles
    exact (Outcome.andThen_completed hsettles.completes).1
  · intro hdone
    have hmeets := (applyBatch_completes hsite hpeer s).mp hdone
    have hfault : (applyPage a peer uuid entries s).fault = none := by
      unfold applyPage Outcome.andThen
      rw [hdone]
    have hstate : (applyPage a peer uuid entries s).state =
        movePast peer uuid entries (runAll (deliver a peer) entries s) := by
      rw [← applyBatch_state hsite hpeer hdone]
      exact (Outcome.andThen_completed hfault).2.2
    refine ⟨hfault, ?_, ?_⟩
    · rintro done e rest rfl
      obtain ⟨cursors, hcursors⟩ := movePast_eq peer uuid (done ++ e :: rest)
        (runAll (deliver a peer) (done ++ e :: rest) s)
      rw [hstate, hcursors, runAll_append]
      obtain ⟨hentry, hrest⟩ := (meets_append.mp hmeets).2
      obtain ⟨hjournaled, hparked⟩ := settled_keeps (e := e) hrest
      rcases delivery_ends (applyOne_delivery (applyOne_completes.mpr hentry)) with
        ⟨hfound, hcommitted⟩ | hwaiting
      · exact .inl ⟨hjournaled hfound, hcommitted⟩
      · exact .inr (hparked hwaiting)
    · intro last hlast
      rw [hstate]
      exact movePast_cursor hlast _

end Batch

/-! ## Small pages -/

/-- A well-formed event that is no revocation gets through at a site that fetches nothing. -/
theorem lazy_settles {site peer : String} {now later startedAt : Int}
    (hstored : (((lazyApplier site now).pg).storedEvent e).isSome = true)
    (hevent : match e.event with
      | .manifestPut (.error _) => False
      | .tokenRevoke (.ok _) => False
      | _ => True) (hclock : ClockFits e.hlc s.clock) :
    Settleable ((lazyApplier site now).atTime later startedAt) peer s e := by
  have hlate : ¬ ParksEarly ((lazyApplier site now).atTime later startedAt) peer e s := by
    unfold ParksEarly
    split
    · rename_i heq
      rw [heq] at hevent
      exact hevent.elim
    · rintro ⟨-, heager, -⟩
      cases heager
    · exact id
  refine ⟨hstored, fun _ => ⟨fun hearly => absurd hearly hlate, fun _ => ⟨hclock, ?_⟩⟩⟩
  refine fun _ _ => ⟨?_, rfl⟩
  unfold RowFits
  split
  · rename_i heq
    rw [heq] at hevent
    exact hevent.elim
  · trivial

def revocation (seq : Int) (hash : String) : JournalEntry :=
  ⟨"east", seq, .tokenRevoke (.ok ⟨hash⟩), ⟨1000, seq⟩, 1⟩

/-- A malformed hash is parked and the next revocation applied. -/
theorem page_settles_iff_malformed :
    PageSettles (lazyApplier "north" 1000) "east" "" [revocation 1 "", revocation 2 (digestOf 'a')]
      {} := by
  refine (page_settles_iff (lazyApplier "north" 1000) "east" "" _ {} (by decide) (by decide)).mpr ?_
  refine ⟨⟨rfl, fun _ => ⟨fun hearly => hearly.elim, fun _ => ⟨⟨by decide, by decide⟩, ?_⟩⟩⟩,
    ⟨rfl, fun _ => ⟨fun hearly => hearly.elim, fun _ => ⟨⟨by decide, by decide⟩, ?_⟩⟩⟩, trivial⟩
  · intro _ hmerge
    exact absurd (show "".utf8ByteSize = 64 from hmerge) (by decide)
  · intro _ _
    refine ⟨⟨_, rfl, ?_⟩, rfl⟩
    intro _ other row hrow
    cases hrow

/-- Two hashes with the same first sixteen bytes: the second tombstone's name is taken. -/
theorem shared_hash_start_wedges_page :
    ¬ PageSettles (lazyApplier "north" 1000) "east" ""
      [revocation 1 (digestOf 'a'),
        revocation 2 (String.ofList (List.replicate 63 'a' ++ ['b']))] {} := by
  intro hsettles
  have hcompletes := hsettles.completes
  revert hcompletes
  decide

end FondacoFormal.Safety
