import FondacoFormal.Convergence.Delivery

/-!
# Merge convergence

Two sites that were sent the same events, in any order and with any repetition,
and that retried what they parked until nothing moved, agree.
-/

namespace FondacoFormal.Convergence

open Library Library.Runs State Repl Safety

/-! ## Runs -/

/-- What happens at a site: a batch, a retry pass, or the loss of journal rows. -/
inductive SyncOp where
  | deliver (now startedAt : Int) (peer : String) (entries : List JournalEntry)
  | retry (now startedAt : Int) (peer : String) (budget : Nat)
  | prune (keeps : String × Int → JournalRow → Bool)

def retried (s : SiteState) (peer : String) (budget : Nat) : List JournalEntry :=
  ((parkedEvents s peer 100).map ParkedRow.entry).take budget

def retryStep (a : Applier) (peer : String) (e : JournalEntry) (s : SiteState) : SiteState :=
  (retryOne a peer e s).state

def SyncOp.run (a : Applier) : SyncOp → SiteState → SiteState
  | deliver now startedAt peer entries, s =>
    (applyBatch (a.atTime now startedAt) peer entries s).state
  | retry now startedAt peer budget, s =>
    (retryParked (a.atTime now startedAt) peer budget s).state
  | prune keeps, s => { s with journal := s.journal.keep keeps }

def SyncOp.sends : SyncOp → Set JournalEntry
  | deliver _ _ _ entries => {e | e ∈ entries}
  | retry _ _ _ _ => ∅
  | prune _ => ∅

def sentBy (ops : List SyncOp) : Set JournalEntry :=
  {e | ∃ op ∈ ops, e ∈ op.sends}

def SyncOp.Addressed : SyncOp → Prop
  | deliver _ _ peer entries => ∀ e ∈ entries, e.originSite = peer
  | retry _ _ peer _ => peer ≠ ""
  | prune _ => True

instance : (op : SyncOp) → Decidable op.Addressed
  | .deliver _ _ peer entries => inferInstanceAs (Decidable (∀ e ∈ entries, e.originSite = peer))
  | .retry _ _ peer _ => inferInstanceAs (Decidable (peer ≠ ""))
  | .prune _ => isTrue trivial

/-- The condition on an operation: every statement of every attempt is accepted. -/
def SyncFits (a : Applier) (s : SiteState) : SyncOp → Prop
  | .deliver now startedAt peer entries =>
    Meets (deliver (a.atTime now startedAt) peer) (Settleable (a.atTime now startedAt) peer)
      entries s
  | .retry now startedAt peer budget =>
    Meets (retryStep (a.atTime now startedAt) peer) (RetryFits (a.atTime now startedAt) peer)
      (retried s peer budget) s
  | .prune _ => True

section Run

variable {a : Applier} {cat : Catalog} {base : Set Observation} {bytes : Finset String}
  {s : SiteState} {sent applied events : Set JournalEntry} {peer : String} {now startedAt : Int}

variable {entries : List JournalEntry}

theorem retryAll_state (hmeets : Meets (retryStep a peer) (RetryFits a peer) entries s) :
    (retryAll a peer entries s).state = runAll (retryStep a peer) entries s := by
  induction entries generalizing s with
  | nil => rfl
  | cons e rest ih =>
    unfold retryAll Outcome.andThen
    rw [(retryOne_retrial hmeets.1).1]
    exact ih hmeets.2

theorem retried_origin (hname : peer ≠ "") {budget : Nat} {e : JournalEntry}
    (hmem : e ∈ retried s peer budget) :
    e.originSite = peer ∧ ∃ row ∈ s.parked, row.entry = e := by
  obtain ⟨row, hrow, rfl⟩ := List.mem_map.mp (List.mem_of_mem_take hmem)
  have hfilter := List.mem_filter.mp (List.mem_of_mem_take hrow)
  refine ⟨?_, row, hfilter.1, rfl⟩
  simpa [hname] using hfilter.2

variable (hevents : EventSet a cat events)

include hevents

variable (hsent : sent ⊆ events) (synced : Synced a cat base bytes sent applied s)

include hsent synced

theorem Synced.deliverAll (hentries : ∀ e ∈ entries, e ∈ events ∧ e.originSite = peer)
    (hmeets : Meets (deliver (a.atTime now startedAt) peer)
      (Settleable (a.atTime now startedAt) peer) entries s) :
    ∃ more, Synced a cat base bytes (sent ∪ {e | e ∈ entries}) more
      (runAll (deliver (a.atTime now startedAt) peer) entries s) := by
  induction entries generalizing s sent applied with
  | nil => exact ⟨applied, by simpa [runAll] using synced⟩
  | cons e rest ih =>
    obtain ⟨hevent, rfl⟩ := hentries e List.mem_cons_self
    obtain ⟨more, hstep⟩ := synced.delivered hevents hsent hevent
      (applyOne_delivery (applyOne_completes.mpr hmeets.1))
    obtain ⟨final, hfinal⟩ := ih (Set.insert_subset hevent hsent) hstep
      (fun other hmem => hentries other (List.mem_cons_of_mem e hmem)) hmeets.2
    refine ⟨final, ?_⟩
    have hunion : sent ∪ {other | other ∈ e :: rest} =
        insert e sent ∪ {other | other ∈ rest} := by
      ext other
      simp only [Set.mem_union, Set.mem_ofPred_eq, List.mem_cons, Set.mem_insert_iff]
      tauto
    rw [hunion]
    exact hfinal

theorem Synced.retryAll (hentries : ∀ e ∈ entries, e ∈ sent ∧ e.originSite = peer)
    (hmeets : Meets (retryStep (a.atTime now startedAt) peer)
      (RetryFits (a.atTime now startedAt) peer) entries s) :
    ∃ more, Synced a cat base bytes sent more
      (runAll (retryStep (a.atTime now startedAt) peer) entries s) := by
  induction entries generalizing s applied with
  | nil => exact ⟨applied, synced⟩
  | cons e rest ih =>
    obtain ⟨hevent, rfl⟩ := hentries e List.mem_cons_self
    obtain ⟨more, hstep⟩ := synced.attempted hevents hsent hevent (retryOne_retrial hmeets.1).2
    exact ih hstep (fun other hmem => hentries other (List.mem_cons_of_mem e hmem)) hmeets.2

theorem Synced.step {op : SyncOp} (hsends : op.sends ⊆ events) (haddressed : op.Addressed)
    (hfits : SyncFits a s op) :
    ∃ more, Synced a cat base bytes (sent ∪ op.sends) more (op.run a s) := by
  cases op with
  | deliver now startedAt peer entries =>
    have hentries : ∀ e ∈ entries, e ∈ events ∧ e.originSite = peer :=
      fun e hmem => ⟨hsends hmem, haddressed e hmem⟩
    cases entries with
    | nil => exact ⟨applied, by simpa [SyncOp.sends, SyncOp.run, applyBatch] using synced⟩
    | cons e rest =>
      have hsite : peer ≠ a.site := by
        rw [← haddressed e List.mem_cons_self]
        exact hevents.foreign e (hsends List.mem_cons_self)
      have hdone := (applyBatch_completes (a := a.atTime now startedAt) hsite haddressed s).mpr
        hfits
      simp only [SyncOp.run]
      rw [applyBatch_state (a := a.atTime now startedAt) hsite haddressed hdone]
      exact synced.deliverAll hevents hsent hentries hfits
  | retry now startedAt peer budget =>
    have hentries : ∀ e ∈ retried s peer budget, e ∈ sent ∧ e.originSite = peer := by
      intro e hmem
      obtain ⟨horigin, row, hrow, rfl⟩ := retried_origin haddressed hmem
      exact ⟨synced.waiting row hrow, horigin⟩
    simp only [SyncOp.run, SyncOp.sends, Set.union_empty, retryParked]
    rw [show ((parkedEvents s peer 100).map ParkedRow.entry).take budget =
      retried s peer budget from rfl, retryAll_state hfits]
    exact synced.retryAll hevents hsent hentries hfits
  | prune keeps =>
    simp only [SyncOp.run, SyncOp.sends, Set.union_empty]
    exact ⟨applied, synced.prune keeps⟩

theorem Synced.run {ops : List SyncOp} (hsends : sentBy ops ⊆ events)
    (haddressed : ∀ op ∈ ops, op.Addressed)
    (hmeets : Meets (SyncOp.run a) (SyncFits a) ops s) :
    ∃ more, Synced a cat base bytes (sent ∪ sentBy ops) more (runAll (SyncOp.run a) ops s) := by
  induction ops generalizing s sent applied with
  | nil =>
    refine ⟨applied, ?_⟩
    have hnone : sentBy [] = ∅ := by
      ext e
      simp [sentBy]
    rw [hnone, Set.union_empty]
    exact synced
  | cons op rest ih =>
    have hfirst : op.sends ⊆ events :=
      fun e hmem => hsends ⟨op, List.mem_cons_self, hmem⟩
    obtain ⟨more, hstep⟩ := synced.step hevents hsent hfirst (haddressed op List.mem_cons_self)
      hmeets.1
    obtain ⟨final, hfinal⟩ := ih (Set.union_subset hsent hfirst) hstep
      (fun e ⟨other, hother, hmem⟩ => hsends ⟨other, List.mem_cons_of_mem op hother, hmem⟩)
      (fun other hother => haddressed other (List.mem_cons_of_mem op hother)) hmeets.2
    refine ⟨final, ?_⟩
    have hunion : sent ∪ sentBy (op :: rest) = sent ∪ op.sends ∪ sentBy rest := by
      ext e
      simp only [sentBy, Set.mem_union, Set.mem_ofPred_eq, List.exists_mem_cons_iff, or_assoc]
    rw [hunion]
    exact hfinal

end Run

/-! ## Fixpoints -/

/--
Retrying has reached a fixpoint: no origin has more parked events than one pass
reads, and a pass over them leaves the state as it is.
-/
def Quiet (a : Applier) (s : SiteState) : Prop :=
  ∀ peer, peer ≠ "" →
    (s.parked.filter fun row => row.entry.originSite = peer).length ≤ 100 ∧
      ∃ now startedAt, SyncFits a s (.retry now startedAt peer 100) ∧
        (SyncOp.retry now startedAt peer 100).run a s = s

variable {sha : String} {row : ParkedRow}

section Fixpoint

variable {a : Applier} {cat : Catalog} {base : Set Observation} {bytes : Finset String}
  {s : SiteState} {sent applied : Set JournalEntry} {peer : String} {e : JournalEntry}
  {entries : List JournalEntry}

theorem retryAll_shrinks (hmeets : Meets (retryStep a peer) (RetryFits a peer) entries s) :
    (runAll (retryStep a peer) entries s).parked.length ≤ s.parked.length ∧
      s.blobs ⊆ (runAll (retryStep a peer) entries s).blobs := by
  induction entries generalizing s with
  | nil => exact ⟨le_rfl, Finset.Subset.refl _⟩
  | cons e rest ih =>
    obtain ⟨hlength, hblobs⟩ := (retryOne_retrial hmeets.1).2.shrinks
    obtain ⟨hrest, hmore⟩ := ih hmeets.2
    exact ⟨hrest.trans hlength, hblobs.trans hmore⟩

theorem retryAll_fixed (hparked : ∀ e ∈ entries, ∃ row ∈ s.parked, row.entry = e)
    (hmeets : Meets (retryStep a peer) (RetryFits a peer) entries s)
    (hfixed : runAll (retryStep a peer) entries s = s) :
    ∀ e ∈ entries, ¬ Mergeable a e s ∧ ∀ sha, Offers a peer e sha → sha ∈ s.blobs := by
  induction entries with
  | nil => exact fun e hmem => nomatch hmem
  | cons first rest ih =>
    have hshrinks := retryAll_shrinks hmeets.2
    rw [show runAll _ rest (retryStep a peer first s) = s from hfixed] at hshrinks
    obtain ⟨hsame, hwaits⟩ := (retryOne_retrial hmeets.1).2.stays
      (hparked first List.mem_cons_self) hshrinks.1 hshrinks.2
    have hstep : retryStep a peer first s = s := hsame
    have hrest := hmeets.2
    rw [hstep] at hrest
    rw [runAll, hstep] at hfixed
    intro e hmem
    rcases List.mem_cons.mp hmem with rfl | hlater
    · exact hwaits
    · exact ih (fun other hother => hparked other (List.mem_cons_of_mem first hother)) hrest
        hfixed e hlater

/-- What is parked at a fixpoint cannot be merged, and its bytes have been fetched. -/
theorem Quiet.waits (quiet : Quiet a s) (hrow : row ∈ s.parked)
    (hname : row.entry.originSite ≠ "") :
    ¬ Mergeable a row.entry s ∧
      ∀ sha, Offers a row.entry.originSite row.entry sha → sha ∈ s.blobs := by
  obtain ⟨hfew, now, startedAt, hfits, hrun⟩ := quiet row.entry.originSite hname
  have hlisted : row.entry ∈ retried s row.entry.originSite 100 := by
    unfold retried
    rw [parkedEvents_of_few hname hfew, List.take_of_length_le (by rw [List.length_map]; exact hfew)]
    exact List.mem_map.mpr ⟨row, List.mem_filter.mpr ⟨hrow, by simp⟩, rfl⟩
  have hfixed : runAll (retryStep (a.atTime now startedAt) row.entry.originSite)
      (retried s row.entry.originSite 100) s = s := by
    rw [← retryAll_state hfits]
    exact hrun
  exact retryAll_fixed (fun e hmem => (retried_origin hname hmem).2) hfits hfixed row.entry hlisted

variable (synced : Synced a cat base bytes sent applied s)

include synced

theorem Synced.applied_iff (quiet : Quiet a s) (hnamed : ∀ e ∈ sent, e.originSite ≠ "") :
    e ∈ applied ↔ e ∈ sent ∧ Mergeable a e s := by
  constructor
  · exact fun hmem => ⟨synced.sub hmem, synced.mergeable e hmem⟩
  · rintro ⟨hsent, hmerge⟩
    rcases synced.covered e hsent with happlied | ⟨row, hrow, rfl⟩
    · exact happlied
    · exact absurd hmerge (quiet.waits hrow (hnamed _ hsent)).1

theorem Synced.mem_blobs (quiet : Quiet a s) (hnamed : ∀ e ∈ sent, e.originSite ≠ "") :
    sha ∈ s.blobs ↔ sha ∈ bytes ∨ ∃ e ∈ sent, Offers a e.originSite e sha := by
  constructor
  · exact synced.fetched sha
  · rintro (hkept | ⟨e, hsent, hoffers⟩)
    · exact synced.kept hkept
    · rcases synced.covered e hsent with happlied | ⟨row, hrow, rfl⟩
      · exact synced.offered e happlied sha hoffers
      · exact (quiet.waits hrow (hnamed _ hsent)).2 sha hoffers

end Fixpoint

/-! ## Convergence -/

section Converges

variable {a : Applier} {cat : Catalog} {base : Set Observation} {bytes : Finset String}
  {s t : SiteState} {sent applied more : Set JournalEntry} {e : JournalEntry}

variable {key : PathKey}

theorem publish_mergeable {h : HLC} (hobserve : observe e = some (.publish key h sha))
    (hmerge : Mergeable a e s) (hblobs : s.blobs ⊆ t.blobs) : Mergeable a e t := by
  unfold observe at hobserve
  unfold Mergeable at hmerge ⊢
  split at hobserve <;> cases hobserve
  rename_i hevent
  rw [hevent] at hmerge ⊢
  exact ⟨hmerge.1, fun heager => hblobs (hmerge.2 heager)⟩

variable (hs : Synced a cat base bytes sent applied s)

include hs

variable (ht : Synced a cat base bytes sent more t)

include ht

/-- Two quiet sites with the same bytes that were sent the same events have the same publishes. -/
theorem Synced.publishes_sub (quiet : Quiet a t) (hnamed : ∀ e ∈ sent, e.originSite ≠ "")
    (hblobs : s.blobs ⊆ t.blobs) {h : HLC} (hmem : .publish key h sha ∈ base ∪ observed applied) :
    .publish key h sha ∈ base ∪ observed more := by
  rcases hmem with hbase | ⟨e, happlied, hobserve⟩
  · exact .inl hbase
  · have hmerge := publish_mergeable hobserve (hs.mergeable e happlied) hblobs
    exact .inr ⟨e, (ht.applied_iff quiet hnamed).mpr ⟨hs.sub happlied, hmerge⟩, hobserve⟩

theorem Synced.applied_sub (quiet : Quiet a t) (hnamed : ∀ e ∈ sent, e.originSite ≠ "")
    (hblobs : s.blobs ⊆ t.blobs) : applied ⊆ more := by
  intro e happlied
  refine (ht.applied_iff quiet hnamed).mpr
    ⟨hs.sub happlied, (hs.mergeable e happlied).mono hblobs ?_⟩
  intro feed path sha hrecorded
  obtain ⟨⟨hmutable, hmany⟩, h, hpublish⟩ :=
    ((hs.refines.paths (feed, path)).named sha).mp hrecorded
  have hsub : ∀ h sha, .publish (feed, path) h sha ∈ base ∪ observed applied →
      .publish (feed, path) h sha ∈ base ∪ observed more :=
    fun h sha hmem => hs.publishes_sub ht quiet hnamed hblobs hmem
  refine ((ht.refines.paths (feed, path)).named sha).mpr
    ⟨⟨hmutable, hmany.mono ?_⟩, h, hsub h sha hpublish⟩
  exact fun other ⟨stamp, hmem⟩ => ⟨stamp, hsub stamp other hmem⟩

theorem Synced.agree (quietS : Quiet a s) (quietT : Quiet a t)
    (hnamed : ∀ e ∈ sent, e.originSite ≠ "") : Agree s t := by
  have hblobs : s.blobs = t.blobs := by
    ext sha
    rw [hs.mem_blobs quietS hnamed, ht.mem_blobs quietT hnamed]
  have happlied : applied = more :=
    (hs.applied_sub ht quietT hnamed hblobs.subset).antisymm
      (ht.applied_sub hs quietS hnamed hblobs.superset)
  subst happlied
  exact hs.refines.agree ht.refines

end Converges

/--
Merge convergence: two runs from empty tables that bring the same events, in any
orders and with any repetition, and end at a fixpoint of retrying, end in states
that agree.
-/
theorem merge_converges (a : Applier) (cat : Catalog) (bytes : Finset String)
    (left right : List SyncOp) (hevents : EventSet a cat (sentBy left))
    (hsame : sentBy right = sentBy left)
    (hleft : ∀ op ∈ left, op.Addressed) (hright : ∀ op ∈ right, op.Addressed)
    (leftFits : Meets (SyncOp.run a) (SyncFits a) left { blobs := bytes })
    (rightFits : Meets (SyncOp.run a) (SyncFits a) right { blobs := bytes })
    (leftQuiet : Quiet a (runAll (SyncOp.run a) left { blobs := bytes }))
    (rightQuiet : Quiet a (runAll (SyncOp.run a) right { blobs := bytes })) :
    Agree (runAll (SyncOp.run a) left { blobs := bytes })
      (runAll (SyncOp.run a) right { blobs := bytes }) := by
  have hstart := Synced.initial a cat bytes
  obtain ⟨applied, hs⟩ := hstart.run hevents (Set.empty_subset _) Set.Subset.rfl hleft leftFits
  obtain ⟨more, ht⟩ := hstart.run hevents (Set.empty_subset _) hsame.subset hright rightFits
  rw [hsame] at ht
  refine hs.agree ht leftQuiet rightQuiet ?_
  rw [Set.empty_union]
  exact hevents.named

/-! ## Small runs -/

variable {a : Applier} {s : SiteState}

theorem quiet_of_unparked (hparked : s.parked = []) : Quiet a s := by
  have hnone : ∀ peer, retried s peer 100 = [] := by
    intro peer
    simp [retried, parkedEvents, hparked]
  intro peer _
  refine ⟨by simp [hparked], a.now, a.startedAt, ?_, ?_⟩
  · show Meets _ _ (retried s peer 100) s
    rw [hnone]
    trivial
  · show (retryAll _ peer (retried s peer 100) s).state = s
    rw [hnone]
    rfl

theorem quiet_of_parked (now startedAt : Int) (hparked : s.parked = [row])
    (hfits : RetryFits (a.atTime now startedAt) row.entry.originSite s row.entry)
    (hstays : retryStep (a.atTime now startedAt) row.entry.originSite row.entry s = s) :
    Quiet a s := by
  intro peer hname
  have hretried : retried s peer 100 = if row.entry.originSite = peer then [row.entry] else [] := by
    unfold retried parkedEvents
    rw [hparked]
    by_cases heq : row.entry.originSite = peer
    · simp [heq]
    · simp [heq, hname]
  have hmeets : Meets (retryStep (a.atTime now startedAt) peer)
      (RetryFits (a.atTime now startedAt) peer) (retried s peer 100) s := by
    rw [hretried]
    split
    · rename_i heq
      rw [← heq]
      exact ⟨hfits, trivial⟩
    · trivial
  refine ⟨?_, now, startedAt, hmeets, ?_⟩
  · rw [hparked]
    exact (List.length_filter_le _ _).trans (show 1 ≤ 100 by decide)
  · show (retryAll _ peer (retried s peer 100) s).state = s
    rw [retryAll_state hmeets, hretried]
    split
    · rename_i heq
      rw [← heq]
      exact hstays
    · rfl

def oneByOne (peer : String) (entries : List JournalEntry) : List SyncOp :=
  entries.map fun e => .deliver 1000 0 peer [e]

theorem sentBy_oneByOne (peer : String) (entries : List JournalEntry) :
    sentBy (oneByOne peer entries) = {e | e ∈ entries} := by
  ext e
  simp [sentBy, oneByOne, SyncOp.sends]

theorem EventSet.ofList {cat : Catalog} {events : List JournalEntry}
    (keyed : ∀ e ∈ events, ∀ other ∈ events, e.key = other.key → e = other)
    (catalogued : ∀ e ∈ events, Catalogued cat e)
    (normal : ∀ e ∈ events, a.pg.jsonb e.event = some e.event)
    (foreign : ∀ e ∈ events, e.originSite ≠ a.site) (named : ∀ e ∈ events, e.originSite ≠ "") :
    EventSet a cat {e | e ∈ events} :=
  ⟨keyed, catalogued, normal, foreign, named⟩

def onePackage : Catalog := ⟨fun _ => "pkg@1", fun _ => false⟩

def sampleDecision (c : Char) : JournalEntry :=
  ⟨"east", 2, .conflictResolve (.ok ⟨"npm", "pkg/1.tgz", "pkg@1", digestOf c, "op"⟩), ⟨3000, 0⟩, 1⟩

/-- A decision in time and one that is parked until the conflict is there. -/
theorem merge_converges_parkedDecision :
    Agree
      (runAll (SyncOp.run (lazyApplier "north" 1000))
        [.deliver 1000 0 "east" [samplePut "east" 'a' 1000],
          .deliver 1000 0 "west" [samplePut "west" 'b' 2000],
          .deliver 1000 0 "east" [sampleDecision 'b']] {})
      (runAll (SyncOp.run (lazyApplier "north" 1000))
        [.deliver 1000 0 "east" [sampleDecision 'b', samplePut "east" 'a' 1000],
          .deliver 1000 0 "west" [samplePut "west" 'b' 2000],
          .retry 2000 0 "east" 5] {}) := by
  have hsent : sentBy
      [.deliver 1000 0 "east" [samplePut "east" 'a' 1000],
        .deliver 1000 0 "west" [samplePut "west" 'b' 2000],
        .deliver 1000 0 "east" [sampleDecision 'b']] =
      {e | e ∈ [samplePut "east" 'a' 1000, samplePut "west" 'b' 2000, sampleDecision 'b']} := by
    ext e
    simp [sentBy, SyncOp.sends]
  refine merge_converges (lazyApplier "north" 1000) onePackage ∅ _ _ ?_ ?_ (by decide) (by decide)
    ?_ ?_ (quiet_of_unparked rfl) (quiet_of_unparked rfl)
  · rw [hsent]
    refine .ofList (by decide) ?_ (by decide) (by decide) (by decide)
    simp only [List.forall_mem_cons]
    exact ⟨⟨rfl, rfl⟩, ⟨rfl, rfl⟩, rfl, List.forall_mem_nil _⟩
  · rw [hsent]
    ext e
    simp only [sentBy, SyncOp.sends, Set.mem_ofPred_eq, List.mem_cons, List.not_mem_nil, or_false,
      exists_eq_or_imp, exists_eq_left, Set.mem_empty_iff_false]
    tauto
  · exact ⟨⟨lazy_settles rfl trivial (by decide), trivial⟩,
      ⟨lazy_settles rfl trivial (by decide), trivial⟩,
      ⟨lazy_settles rfl trivial (by decide), trivial⟩, trivial⟩
  · exact ⟨⟨lazy_settles rfl trivial (by decide), lazy_settles rfl trivial (by decide), trivial⟩,
      ⟨lazy_settles rfl trivial (by decide), trivial⟩,
      ⟨fun _ => ⟨rfl, by decide, fun _ => ⟨trivial, rfl⟩⟩, trivial⟩, trivial⟩

def sharedStart : String :=
  String.ofList (List.replicate 63 'a' ++ ['b'])

/--
Two revocations of one peer whose hashes share sixteen characters: whichever comes
second is refused for the name of its tombstone and never parked.
-/
theorem shared_hash_start_diverges :
    ∃ (a : Applier) (cat : Catalog) (left right : List SyncOp),
      EventSet a cat (sentBy left) ∧ sentBy right = sentBy left ∧
      (∀ op ∈ left, op.Addressed) ∧ (∀ op ∈ right, op.Addressed) ∧
      Quiet a (runAll (SyncOp.run a) left {}) ∧ Quiet a (runAll (SyncOp.run a) right {}) ∧
      ¬ Agree (runAll (SyncOp.run a) left {}) (runAll (SyncOp.run a) right {}) := by
  refine ⟨lazyApplier "north" 1000, onePackage,
    oneByOne "east" [revocation 1 (digestOf 'a'), revocation 2 sharedStart],
    oneByOne "east" [revocation 2 sharedStart, revocation 1 (digestOf 'a')], ?_, ?_,
    by decide, by decide, quiet_of_unparked rfl, quiet_of_unparked rfl, ?_⟩
  · rw [sentBy_oneByOne]
    refine .ofList (by decide) ?_ (by decide) (by decide) (by decide)
    simp only [List.forall_mem_cons]
    exact ⟨trivial, trivial, List.forall_mem_nil _⟩
  · rw [sentBy_oneByOne, sentBy_oneByOne]
    ext e
    simp [or_comm]
  · intro hagree
    have hrevoked := hagree.revocations sharedStart
    revert hrevoked
    decide

end FondacoFormal.Convergence
