import FondacoFormal.Repl.Following
import FondacoFormal.Safety.StreamProgress
import Mathlib.Data.Int.SuccPred

/-!
# No entry of a followed journal is skipped

The follower's cursor never passes an entry that was neither applied nor parked nor part of an
imported snapshot.
-/

namespace FondacoFormal.Safety

open Library Library.Runs State Repl

/-! ## Only the cursor statements move a cursor -/

structure CursorFrame (s t : SiteState) : Prop where
  cursors : t.cursors = s.cursors
  blobs : s.blobs ⊆ t.blobs

variable {e : JournalEntry}

namespace CursorFrame

variable {s t u : SiteState}

theorem refl (s : SiteState) : CursorFrame s s :=
  ⟨rfl, Finset.Subset.refl _⟩

theorem trans (first : CursorFrame s t) (second : CursorFrame t u) : CursorFrame s u :=
  ⟨second.cursors.trans first.cursors, first.blobs.trans second.blobs⟩

theorem of_merged {a : Applier} {peer : String} (merged : Merged a peer e s t) : CursorFrame s t :=
  ⟨merged.frame.2.2.2.1, merged.frame.2.2.2.2.subset⟩

theorem andThen {first : Outcome} {next : SiteState → Outcome} (hfirst : CursorFrame s first.state)
    (hnext : ∀ t, CursorFrame t (next t).state) : CursorFrame s (first.andThen next).state := by
  rcases andThen_state first next with ⟨hstate, -⟩ | ⟨hstate, -⟩
  · rw [hstate]
    exact hfirst
  · rw [hstate]
    exact hfirst.trans (hnext _)

end CursorFrame

section Frame

variable (a : Applier) (peer : String) (e : JournalEntry) (s : SiteState)

theorem commit_frame {effect : Effect} {after : SiteState} (hafter : CursorFrame s after)
    (hbytes : effect.state.blobs = after.blobs) :
    CursorFrame s (commit a e s effect after).state := by
  unfold commit
  split
  · exact hafter
  · exact ⟨rfl, hbytes ▸ hafter.blobs⟩

variable {a peer e s} in
theorem attempted_frame {retried : Bool} {o : Outcome}
    (attempted : Attempted a peer e retried s o) :
    CursorFrame s o.state := by
  cases attempted with
  | parked blobs reason bytes ran =>
    obtain ⟨parked, rfl⟩ := parkEvent_ok ran
    exact ⟨rfl, bytes.subset⟩
  | known clock blobs bytes => exact ⟨rfl, bytes.subset⟩
  | merged clock blobs stored effect bytes _ _ _ ran state =>
    have hmerged := CursorFrame.of_merged (dispatch_merged ran)
    rw [state]
    cases retried <;> exact ⟨hmerged.cursors, bytes.subset.trans hmerged.blobs⟩
  | stopped blobs bytes state =>
    rw [state]
    exact ⟨rfl, bytes⟩

theorem applyOne_frame : CursorFrame s (applyOne a peer e s).state :=
  attempted_frame (applyOne_attempted a peer e s)

theorem retryAll_frame (entries : List JournalEntry) :
    CursorFrame s (retryAll a peer entries s).state := by
  induction entries generalizing s with
  | nil => exact .refl s
  | cons first rest ih => exact (attempted_frame (retryOne_attempted a peer first s)).andThen ih

theorem importManifest_frame (site : String) (p : ManifestPut) :
    CursorFrame s (importManifest a peer site p s).state := by
  obtain ⟨blobs, hbytes, hfetched⟩ := prefetchSnapshotBlob_eq a peer (snapshotEntry site p) s
  unfold importManifest
  dsimp only
  rw [hfetched]
  have hprefetched : CursorFrame s { s with blobs := blobs } := ⟨rfl, hbytes.subset⟩
  split
  · rename_i effect himport
    exact hprefetched.trans
      (commit_frame a _ _ (CursorFrame.of_merged (importSnapshotEntry_merged himport)) rfl)
  · exact hprefetched

theorem applySnapshotRestrictions_frame {snap : Snapshot} {restricted : SiteState}
    (ran : applySnapshotRestrictions peer snap s = .ok restricted) : CursorFrame s restricted := by
  refine applySnapshotRestrictions_invariant ?_ ?_ ?_ ?_ (CursorFrame.refl s) ran
  · intro t q ht
    obtain ⟨quarantine, heq⟩ := importQuarantine_eq t q
    rw [heq]
    exact ⟨ht.cursors, ht.blobs⟩
  · intro t c _ ht
    obtain ⟨quarantine, conflicts, heq, -⟩ := importConflict_eq t c
    rw [heq]
    exact ⟨ht.cursors, ht.blobs⟩
  · intro t r _ ht
    obtain ⟨resolutions, heq⟩ := importResolution_eq peer t r
    rw [heq]
    exact ⟨ht.cursors, ht.blobs⟩
  · exact fun t tokens ht => ⟨ht.cursors, ht.blobs⟩

theorem advanceClock_frame (snap : Snapshot) :
    CursorFrame s (advanceClockPastSnapshot snap s) := by
  rw [advanceClockPastSnapshot]
  split
  · exact .refl s
  · split
    · exact ⟨rfl, Finset.Subset.refl _⟩
    · exact .refl s

end Frame

/-! ## The retained stretch of a journal -/

variable {entries : List JournalEntry} {after limit : Int}

section Retained

variable {journal : Table (String × Int) JournalRow} {origin : String}

def Retained (journal : Table (String × Int) JournalRow) (origin : String) (seq : Int) : Prop :=
  (journal.find (origin, seq)).isSome = true

variable {seq : Int}

theorem mem_retainedSeqs : seq ∈ retainedSeqs journal origin ↔ Retained journal origin seq := by
  unfold retainedSeqs Retained
  rw [Option.isSome_iff_exists, List.mem_map]
  constructor
  · rintro ⟨⟨key, row⟩, hmem, rfl⟩
    obtain ⟨hrow, horigin⟩ := List.mem_filter.mp hmem
    refine ⟨row, ?_⟩
    rw [← of_decide_eq_true horigin]
    exact (journal.mem_rows_iff key row).mp hrow
  · rintro ⟨row, hfind⟩
    refine ⟨((origin, seq), row), List.mem_filter.mpr ⟨?_, by simp⟩, rfl⟩
    exact (journal.mem_rows_iff (origin, seq) row).mpr hfind

theorem journalHead_retained (hkept : Retained journal origin seq) :
    Retained journal origin (journalHead journal origin).1 := by
  have hmem := mem_retainedSeqs.mpr hkept
  unfold journalHead
  cases hmax : (retainedSeqs journal origin).max? with
  | none =>
    rw [List.max?_eq_none_iff] at hmax
    rw [hmax] at hmem
    cases hmem
  | some head => exact mem_retainedSeqs.mp (List.max?_eq_some_iff.mp hmax).1

/-- The 410 test passes only if the oldest retained entry is within reach of the cursor. -/
theorem exists_retained_le {after : Int} (hkept : Retained journal origin seq)
    (hreach : beyondRetention (journalHead journal origin) after = false) :
    ∃ oldest, Retained journal origin oldest ∧ oldest ≤ after + 1 := by
  have hmem := mem_retainedSeqs.mpr hkept
  unfold beyondRetention journalHead at hreach
  cases hmin : (retainedSeqs journal origin).min? with
  | none =>
    rw [List.min?_eq_none_iff] at hmin
    rw [hmin] at hmem
    cases hmem
  | some oldest =>
    simp only [hmin, Option.getD_some, gt_iff_lt, decide_eq_false_iff_not, not_lt] at hreach
    exact ⟨oldest, mem_retainedSeqs.mp (List.min?_eq_some_iff.mp hmin).1, hreach⟩

theorem mem_readJournal (hmem : e ∈ readJournal journal origin after limit) :
    e.originSite = origin ∧ Retained journal origin e.originSeq := by
  have hfound := (List.mem_insertionSort _).mp (List.mem_of_mem_take hmem)
  obtain ⟨⟨key, row⟩, hrow, rfl⟩ := List.mem_map.mp hfound
  obtain ⟨hstored, htest⟩ := List.mem_filter.mp hrow
  have horigin : key.1 = origin := by
    simp only [Bool.and_eq_true, decide_eq_true_eq] at htest
    exact htest.1
  refine ⟨horigin, ?_⟩
  rw [← horigin]
  exact Option.isSome_iff_exists.mpr ⟨row, (journal.mem_rows_iff key row).mp hstored⟩

/-- Of a sorted list, whatever is not beyond an entry of the cut-off first part is in that part. -/
theorem mem_take_of_le {size : Nat} {e last : JournalEntry}
    (hsorted : entries.Pairwise fun left right => left.originSeq ≤ right.originSeq)
    (hlast : last ∈ entries.take size) (hmem : e ∈ entries) (hle : e.originSeq ≤ last.originSeq) :
    e ∈ entries.take size ∨ e.originSeq = last.originSeq := by
  rw [← List.take_append_drop size entries, List.pairwise_append] at hsorted
  rw [← List.take_append_drop size entries] at hmem
  rcases List.mem_append.mp hmem with hfirst | hbeyond
  · exact .inl hfirst
  · exact .inr (le_antisymm hle (hsorted.2.2 last hlast e hbeyond))

/-- A page leaves out no retained entry between the cursor and the page's entries. -/
theorem readJournal_covers {last : JournalEntry}
    (hlast : last ∈ readJournal journal origin after limit) (hafter : after < seq)
    (hseq : seq ≤ last.originSeq) (hkept : Retained journal origin seq) :
    ∃ e ∈ readJournal journal origin after limit, e.key = (origin, seq) := by
  obtain ⟨row, hfind⟩ := Option.isSome_iff_exists.mp hkept
  have hrow : ((origin, seq), row) ∈ journal.rows :=
    (journal.mem_rows_iff (origin, seq) row).mpr hfind
  obtain ⟨hsite, -⟩ := mem_readJournal hlast
  have hmem : row.entry (origin, seq) ∈
      ((journal.rows.filter fun row => row.1.1 = origin && after < row.1.2).map
        fun row => row.2.entry row.1).insertionSort
          fun left right => left.originSeq ≤ right.originSeq := by
    refine (List.mem_insertionSort _).mpr (List.mem_map.mpr ⟨((origin, seq), row), ?_, rfl⟩)
    exact List.mem_filter.mpr ⟨hrow, by simp [hafter]⟩
  rcases mem_take_of_le (List.pairwise_insertionSort _ _) hlast hmem hseq with hpage | heq
  · exact ⟨_, hpage, rfl⟩
  · refine ⟨last, hlast, ?_⟩
    unfold JournalEntry.key
    rw [hsite, ← heq]
    rfl

end Retained

/-! ## Local transactions -/

/-- A local transaction lengthens the journal at its end and leaves the cursors alone. -/
structure Extended (origin : String) (s t : SiteState) (entries : List JournalEntry) : Prop where
  counter : s.clock.lastSeq ≤ t.clock.lastSeq
  cursors : t.cursors = s.cursors
  entries : ∀ e ∈ entries, e.originSite = origin ∧ s.clock.lastSeq < e.originSeq ∧
    e.originSeq ≤ t.clock.lastSeq
  stays : ∀ seq, Retained s.journal origin seq → Retained t.journal origin seq
  added : ∀ seq, s.clock.lastSeq < seq → seq ≤ t.clock.lastSeq → Retained t.journal origin seq
  only : ∀ seq, Retained t.journal origin seq →
    Retained s.journal origin seq ∨ s.clock.lastSeq < seq ∧ seq ≤ t.clock.lastSeq

namespace Extended

variable {origin : String} {s t u : SiteState} {entries later : List JournalEntry}

theorem none (hcounter : t.clock.lastSeq = s.clock.lastSeq) (hcursors : t.cursors = s.cursors)
    (hjournal : t.journal = s.journal) : Extended origin s t [] where
  counter := hcounter.ge
  cursors := hcursors
  entries := List.forall_mem_nil _
  stays := fun seq hkept => by rwa [hjournal]
  added := fun seq hlow hhigh => by omega
  only := fun seq hkept => by
    rw [hjournal] at hkept
    exact .inl hkept

theorem trans (first : Extended origin s t entries) (second : Extended origin t u later) :
    Extended origin s u (entries ++ later) where
  counter := first.counter.trans second.counter
  cursors := second.cursors.trans first.cursors
  entries := by
    have hfirst := first.counter
    have hsecond := second.counter
    intro e hmem
    rcases List.mem_append.mp hmem with hearly | hlate
    · obtain ⟨hsite, hlow, hhigh⟩ := first.entries e hearly
      exact ⟨hsite, hlow, by omega⟩
    · obtain ⟨hsite, hlow, hhigh⟩ := second.entries e hlate
      exact ⟨hsite, by omega, hhigh⟩
  stays := fun seq hkept => second.stays seq (first.stays seq hkept)
  added := fun seq hlow hhigh => by
    rcases le_or_gt seq t.clock.lastSeq with hearly | hlate
    · exact second.stays seq (first.added seq hlow hearly)
    · exact second.added seq hlate hhigh
  only := fun seq hkept => by
    have hfirst := first.counter
    have hsecond := second.counter
    rcases second.only seq hkept with hearly | ⟨hlow, hhigh⟩
    · rcases first.only seq hearly with hold | ⟨hlow, hhigh⟩
      · exact .inl hold
      · exact .inr ⟨hlow, by omega⟩
    · exact .inr ⟨by omega, hhigh⟩

end Extended

variable {site : String} {pg : Postgres}

theorem appendJournal_extended {event : Event} {nowMs startedAt : Int} {s next : SiteState}
    (ran : appendJournal pg site event nowMs startedAt s = .ok (next, e)) :
    Extended site s next [e] := by
  obtain ⟨clock, seq, stored, hclock, -, -, hentry, rfl⟩ := appendJournal_ok ran
  obtain ⟨-, -, hnext, hseq⟩ := replHlcNext_ok hclock
  have hsame : ∀ n, n ≠ seq →
      (Retained (s.journal.put (site, seq) ⟨stored, e.hlc, 1, startedAt⟩) site n ↔
        Retained s.journal site n) := by
    intro n hne
    unfold Retained
    rw [Table.find_put_of_ne]
    exact fun heq => hne (congrArg Prod.snd heq)
  have hnew : Retained (s.journal.put (site, seq) ⟨stored, e.hlc, 1, startedAt⟩) site seq := by
    unfold Retained
    rw [Table.find_put_self]
    rfl
  refine ⟨by dsimp only; omega, rfl, ?_, ?_, ?_, ?_⟩
  · intro other hmem
    rw [List.mem_singleton.mp hmem, hentry]
    exact ⟨rfl, by dsimp only; omega, by dsimp only; omega⟩
  · intro n hkept
    by_cases heq : n = seq
    · rw [heq]
      exact hnew
    · exact (hsame n heq).mpr hkept
  · intro n hlow hhigh
    have heq : n = seq := by
      dsimp only at hhigh
      omega
    rw [heq]
    exact hnew
  · intro n hkept
    by_cases heq : n = seq
    · exact .inr ⟨by omega, by dsimp only; omega⟩
    · exact .inl ((hsame n heq).mp hkept)

theorem appendAll_extended {startedAt : Int} {events : List (Event × Int)} {s t : SiteState}
    (ran : appendAll pg site startedAt events s = .ok (t, entries)) :
    Extended site s t entries := by
  induction events generalizing s entries with
  | nil =>
    cases ran
    exact .none rfl rfl rfl
  | cons item rest ih =>
    obtain ⟨⟨next, e⟩, hfirst, ran⟩ := Fallible.bind_eq_ok.mp ran
    obtain ⟨⟨done, later⟩, hrest, ran⟩ := Fallible.bind_eq_ok.mp ran
    cases ran
    exact (appendJournal_extended hfirst).trans (ih hrest)

theorem LocalTx.run_extended (ends : Ends) (tx : LocalTx) (s : SiteState) :
    Extended ends.origin s (tx.run ends s).1 (tx.run ends s).2 := by
  have hbody : Extended ends.origin s (tx.body s) [] := .none rfl rfl rfl
  unfold LocalTx.run
  split
  · rename_i result hran
    exact hbody.trans (appendAll_extended hran)
  · exact .none rfl rfl rfl

/-! ## What the follower's cursor stands for -/

def Handled (w : Following) (e : JournalEntry) : Prop :=
  e.key ∈ w.applied ∨ e.key ∈ w.parked ∨ e ∈ w.contained
  deriving Decidable

def appliedCursor (ends : Ends) (w : Following) : Int :=
  (getCursor w.puller ends.origin ends.origin).appliedSeq

def NoneSkipped (ends : Ends) (w : Following) : Prop :=
  ∀ e ∈ w.appended, e.originSeq ≤ appliedCursor ends w → Handled w e
  deriving Decidable

/-- The origin has got as far as `seq`, and every entry up to it was handled. -/
def Covered (w : Following) (seq : Int) : Prop :=
  seq ≤ w.origin.clock.lastSeq ∧ ∀ e ∈ w.appended, e.originSeq ≤ seq → Handled w e

def CallSafe (ends : Ends) (w : Following) : CatchUp → Prop
  | .idle | .polled _ | .resync => True
  | .requested _ after => Covered w after
  | .headRead _ after _ => Covered w after ∧ ∀ e ∈ w.appended, after < e.originSeq →
      Retained w.origin.journal ends.origin e.originSeq ∨ Handled w e
  | .applying _ page rest _ =>
    (∀ e ∈ rest, e.originSite = ends.origin) ∧ ∃ last, page.getLast? = some last ∧
      last.originSeq ≤ w.origin.clock.lastSeq ∧ ∀ e ∈ w.appended, e.originSeq ≤ last.originSeq →
        Handled w e ∨ ∃ waiting ∈ rest, waiting.key = e.key
  | .restricting snap covers | .importing snap covers _ =>
    snap.site = ends.origin ∧ ∀ seq, snap.watermarks.lookup ends.origin = some seq →
      seq ≤ w.origin.clock.lastSeq ∧ ∀ e ∈ w.appended, e.originSeq ≤ seq → e ∈ covers

structure Tracks (ends : Ends) (w : Following) : Prop where
  counter : 0 ≤ w.origin.clock.lastSeq
  own : ∀ e ∈ w.appended, e.originSite = ends.origin ∧ 0 < e.originSeq ∧
    e.originSeq ≤ w.origin.clock.lastSeq
  bounded : ∀ seq, Retained w.origin.journal ends.origin seq → seq ≤ w.origin.clock.lastSeq
  gapless : ∀ low seq, Retained w.origin.journal ends.origin low → low ≤ seq →
    seq ≤ w.origin.clock.lastSeq → Retained w.origin.journal ends.origin seq
  newest : w.appended ≠ [] →
    Retained w.origin.journal ends.origin w.origin.clock.lastSeq
  cursor : Covered w (appliedCursor ends w)
  acked : ∀ row, w.origin.cursors.find (ends.puller, ends.origin) = some row →
    Covered w row.durableSeq
  calls : ∀ call, CallSafe ends w (w.calls call)

/-! ## One step -/

/-- From one moment to a later one: nothing handled is forgotten, and new entries come last. -/
structure Onward (ends : Ends) (w later : Following) : Prop where
  counter : w.origin.clock.lastSeq ≤ later.origin.clock.lastSeq
  handled : ∀ e, Handled w e → Handled later e
  appended : ∀ e ∈ later.appended, e ∈ w.appended ∨ w.origin.clock.lastSeq < e.originSeq ∧
    Retained later.origin.journal ends.origin e.originSeq

/-- A step of a call that writes the cursors of the origin and the tables of the follower. -/
def wentOn (w : Following) (cursors : Table (String × String) CursorRow)
    (puller : SiteState) (contained : List JournalEntry) (call : Nat) (next : CatchUp) :
    Following :=
  ({ w with
    origin := { w.origin with cursors := cursors }
    puller := puller
    contained := contained }.moved call next).record

variable {journal : Table (String × Int) JournalRow} {puller : SiteState} {next : CatchUp}
  {cursors : Table (String × String) CursorRow} {contained : List JournalEntry} {pageHead : Int}
  {s : SiteState}

section Step

variable {ends : Ends} {w later : Following} {seq : Int}

theorem Covered.onward (covered : Covered w seq) (onward : Onward ends w later) :
    Covered later seq := by
  obtain ⟨hcounter, hhandled⟩ := covered
  refine ⟨hcounter.trans onward.counter, ?_⟩
  intro e hmem hseq
  rcases onward.appended e hmem with hold | ⟨hnew, -⟩
  · exact onward.handled e (hhandled e hold hseq)
  · omega

theorem CallSafe.onward {call : CatchUp} (safe : CallSafe ends w call)
    (onward : Onward ends w later)
    (kept : ∀ head after found, call = .headRead head after found → ∀ e ∈ w.appended,
      after < e.originSeq → Retained w.origin.journal ends.origin e.originSeq →
        Retained later.origin.journal ends.origin e.originSeq ∨ Handled later e) :
    CallSafe ends later call := by
  have hcounter := onward.counter
  cases call with
  | idle | polled | resync => trivial
  | requested head after => exact Covered.onward safe onward
  | headRead head after found =>
    refine ⟨safe.1.onward onward, ?_⟩
    intro e hmem hafter
    rcases onward.appended e hmem with hold | ⟨-, hretained⟩
    · rcases safe.2 e hold hafter with hretained | hhandled
      · exact kept head after found rfl e hold hafter hretained
      · exact .inr (onward.handled e hhandled)
    · exact .inl hretained
  | applying head page rest pageHead =>
    obtain ⟨hsites, last, hlast, hbound, hentries⟩ := safe
    refine ⟨hsites, last, hlast, hbound.trans hcounter, ?_⟩
    intro e hmem hseq
    rcases onward.appended e hmem with hold | ⟨hnew, -⟩
    · exact (hentries e hold hseq).imp_left (onward.handled e)
    · omega
  | restricting snap covers | importing snap covers rest =>
    refine ⟨safe.1, ?_⟩
    intro seq hwatermark
    obtain ⟨hbound, hcovers⟩ := safe.2 seq hwatermark
    refine ⟨hbound.trans hcounter, ?_⟩
    intro e hmem hseq
    rcases onward.appended e hmem with hold | ⟨hnew, -⟩
    · exact hcovers e hold hseq
    · omega

theorem handled_record (hhandled : Handled w e) : Handled w.record e := by
  rcases hhandled with hjournaled | hparked | hcontained
  · exact .inl (List.mem_append_left _ hjournaled)
  · exact .inr (.inl (List.mem_append_left _ hparked))
  · exact .inr (.inr hcontained)

theorem handled_of_held {e held : JournalEntry} (hkey : held.key = e.key)
    (hheld : Journaled held w.puller ∨ IsParked held w.puller) : Handled w.record e := by
  rcases hheld with hjournaled | ⟨row, hmem, hrow⟩
  · obtain ⟨row, hfind⟩ := Option.isSome_iff_exists.mp hjournaled
    refine .inl (List.mem_append_right _ (List.mem_map.mpr ⟨(held.key, row), ?_, hkey⟩))
    exact (w.puller.journal.mem_rows_iff held.key row).mpr hfind
  · exact .inr (.inl (List.mem_append_right _ (List.mem_map.mpr ⟨row, hmem, hrow.trans hkey⟩)))

section

variable (tracks : Tracks ends w)

include tracks

/--
A step that leaves the origin's journal as it is: only the cursors and the call
that moved have to be looked at.
-/
theorem Tracks.same_journal (onward : Onward ends w later)
    (hjournal : later.origin.journal = w.origin.journal)
    (hclock : later.origin.clock = w.origin.clock) (happended : later.appended = w.appended)
    (hcursor : Covered w (appliedCursor ends later) ∨ Covered later (appliedCursor ends later))
    (hacked : ∀ row, later.origin.cursors.find (ends.puller, ends.origin) = some row →
      Covered w row.durableSeq)
    (hcalls : ∀ call, later.calls call = w.calls call ∨ CallSafe ends later (later.calls call)) :
    Tracks ends later := by
  refine ⟨?_, ?_, ?_, ?_, ?_, ?_, ?_, ?_⟩
  · rw [hclock]
    exact tracks.counter
  · rw [hclock, happended]
    exact tracks.own
  · rw [hclock, hjournal]
    exact tracks.bounded
  · rw [hclock, hjournal]
    exact tracks.gapless
  · rw [hclock, hjournal, happended]
    exact tracks.newest
  · exact hcursor.elim (fun covered => covered.onward onward) id
  · exact fun row hfind => (hacked row hfind).onward onward
  · intro call
    rcases hcalls call with hsame | hsafe
    · rw [hsame]
      refine (tracks.calls call).onward onward ?_
      intro head after found _ e _ _ hretained
      rw [hjournal]
      exact .inl hretained
    · exact hsafe

variable {call : Nat}

theorem Tracks.safe_at {phase : CatchUp} (hcall : w.calls call = phase) : CallSafe ends w phase :=
  hcall ▸ tracks.calls call

theorem Tracks.cursor_kept (hcursors : later.puller.cursors = w.puller.cursors) :
    Covered w (appliedCursor ends later) := by
  unfold appliedCursor getCursor
  rw [hcursors]
  exact tracks.cursor

theorem Tracks.moved_to (hcontained : w.contained ⊆ contained)
    (hcursor : Covered w (appliedCursor ends { w with puller := puller }) ∨
      Covered (wentOn w cursors puller contained call next)
        (appliedCursor ends { w with puller := puller }))
    (hacked : ∀ row, cursors.find (ends.puller, ends.origin) = some row →
      Covered w row.durableSeq)
    (hnext : CallSafe ends (wentOn w cursors puller contained call next) next) :
    Tracks ends (wentOn w cursors puller contained call next) := by
  have onward : Onward ends w (wentOn w cursors puller contained call next) :=
    ⟨le_rfl, fun e hhandled => handled_record (hhandled.imp_right (Or.imp_right (@hcontained e))),
      fun e hmem => .inl hmem⟩
  refine tracks.same_journal onward rfl rfl rfl hcursor hacked fun other => ?_
  have hupdate : (wentOn w cursors puller contained call next).calls other =
      Function.update w.calls call next other := rfl
  rw [hupdate]
  by_cases heq : other = call
  · rw [heq, Function.update_self]
    exact .inr hnext
  · rw [Function.update_of_ne heq]
    exact .inl rfl

theorem Tracks.cursors_kept (hcursors : puller.cursors = w.puller.cursors)
    (hnext : CallSafe ends ({ w with puller := puller }.moved call next).record next) :
    Tracks ends ({ w with puller := puller }.moved call next).record :=
  tracks.moved_to (List.Subset.refl _) (.inl (tracks.cursor_kept hcursors)) tracks.acked hnext

theorem Tracks.puller_changed (hcursors : puller.cursors = w.puller.cursors) :
    Tracks ends (Following.record { w with puller := puller }) :=
  tracks.same_journal ⟨le_rfl, fun _ hhandled => handled_record hhandled, fun _ => .inl⟩ rfl rfl rfl
    (.inl (tracks.cursor_kept hcursors)) tracks.acked fun _ => .inl rfl

theorem covered_zero : Covered w 0 :=
  ⟨tracks.counter, fun e hmem hseq => absurd (tracks.own e hmem).2.1 (by omega)⟩

end

theorem setCursor_cursor (s : SiteState) (peer origin : String) (c : CursorRow) :
    (getCursor (setCursor s peer origin c) peer origin).appliedSeq = c.appliedSeq := by
  unfold getCursor setCursor
  rw [Table.find_upsert_self]
  cases s.cursors.find (peer, origin) <;> rfl

theorem lookup_watermark {uuid : String}
    (hfound : (handleSnapshot site uuid s).watermarks.lookup site = some seq) :
    Retained s.journal site seq := by
  unfold handleSnapshot at hfound
  dsimp only at hfound
  obtain ⟨before, after, hsplit, -⟩ := List.lookup_eq_some_iff.mp hfound
  have hmem : (site, seq) ∈ (s.journal.rows.map fun row => row.1.1).dedup.map
      fun origin => (origin, (journalHead s.journal origin).1) := by
    rw [hsplit]
    simp
  obtain ⟨origin, horigin, heq⟩ := List.mem_map.mp hmem
  cases heq
  obtain ⟨⟨⟨origin, kept⟩, row⟩, hrow, rfl⟩ := List.mem_map.mp (List.mem_dedup.mp horigin)
  have hkept : Retained s.journal origin kept :=
    Option.isSome_iff_exists.mpr ⟨row, (s.journal.mem_rows_iff (origin, kept) row).mp hrow⟩
  exact journalHead_retained hkept

theorem Covered.wentOn (covered : Covered w seq) :
    Covered (wentOn w cursors puller w.contained call next) seq :=
  ⟨covered.1, fun e hmem hseq => handled_record (covered.2 e hmem hseq)⟩

variable {head : Int}

theorem Tracks.polled (tracks : Tracks ends w) (a : Applier) (hcall : w.calls call = .polled head) :
    Tracks ends (w.advance ends call a).record := by
  have hcursor : Covered w (appliedCursor ends
      { w with puller := Following.checkIdentity ends w.puller }) := by
    unfold appliedCursor Following.checkIdentity
    dsimp only
    split
    · rw [setCursor_cursor]
      exact covered_zero tracks
    · exact tracks.cursor
  unfold Following.advance
  simp only [hcall]
  refine tracks.moved_to (List.Subset.refl _) (.inl hcursor) tracks.acked ?_
  split
  · trivial
  · exact hcursor.wentOn

variable {after : Int}

/-- `JournalHead`: past the 410 test, everything after the cursor is still there. -/
theorem Tracks.requested (tracks : Tracks ends w) (a : Applier)
    (hcall : w.calls call = .requested head after) :
    Tracks ends (w.advance ends call a).record := by
  have hafter : Covered w after := tracks.safe_at hcall
  unfold Following.advance
  simp only [hcall]
  refine tracks.cursors_kept rfl ?_
  cases hreach : beyondRetention (journalHead w.origin.journal ends.origin) after with
  | true => trivial
  | false =>
    refine ⟨hafter.wentOn, ?_⟩
    intro e hmem hseq
    obtain ⟨-, -, hbound⟩ := tracks.own e hmem
    have hnewest := tracks.newest (List.ne_nil_of_mem hmem)
    obtain ⟨oldest, holdest, hle⟩ := exists_retained_le hnewest hreach
    exact .inl (tracks.gapless oldest e.originSeq holdest (by omega) hbound)

theorem acknowledge_acked (tracks : Tracks ends w) (hafter : Covered w after) (found : Int × Int)
    {row : CursorRow}
    (hrow : (acknowledge ends found after w.origin).cursors.find (ends.puller, ends.origin) =
      some row) : Covered w row.durableSeq := by
  unfold acknowledge at hrow
  split at hrow
  · unfold recordPeerAck at hrow
    split at hrow
    · exact tracks.acked row hrow
    · rw [Table.find_upsert_self] at hrow
      cases hstored : w.origin.cursors.find (ends.puller, ends.origin) with
      | none =>
        rw [hstored] at hrow
        cases hrow
        exact hafter
      | some stored =>
        rw [hstored] at hrow
        cases hrow
        change Covered w (max stored.durableSeq after)
        rcases max_choice stored.durableSeq after with hmax | hmax
        · rw [hmax]
          exact tracks.acked stored hstored
        · rw [hmax]
          exact hafter
  · exact tracks.acked row hrow

theorem acknowledge_eq (ends : Ends) (found : Int × Int) (after : Int) (s : SiteState) :
    ∃ cursors, acknowledge ends found after s = { s with cursors := cursors } := by
  unfold acknowledge recordPeerAck
  split
  · split
    · exact ⟨s.cursors, rfl⟩
    · exact ⟨_, rfl⟩
  · exact ⟨s.cursors, rfl⟩

section

variable (tracks : Tracks ends w)

include tracks

variable (a : Applier)

/-- `ReadJournal`: what the page leaves out up to its last entry was handled before. -/
theorem Tracks.headRead {found : Int × Int} (hcall : w.calls call = .headRead head after found) :
    Tracks ends (w.advance ends call a).record := by
  obtain ⟨hafter, hahead⟩ := tracks.safe_at hcall
  obtain ⟨cursors, horigin⟩ := acknowledge_eq ends found after w.origin
  have hacked : ∀ row, (acknowledge ends found after w.origin).cursors.find
      (ends.puller, ends.origin) = some row → Covered w row.durableSeq :=
    fun row hrow => acknowledge_acked tracks hafter found hrow
  unfold Following.advance
  simp only [hcall]
  rw [horigin] at hacked ⊢
  refine tracks.moved_to (List.Subset.refl _) (.inl tracks.cursor) hacked ?_
  set page := readJournal w.origin.journal ends.origin after journalBatch with hpage
  split
  · trivial
  · rename_i hsome
    have hne : page ≠ [] := fun hnil => hsome (by rw [hnil]; rfl)
    refine ⟨fun e hmem => (mem_readJournal hmem).1, page.getLast hne,
      List.getLast?_eq_getLast_of_ne_nil hne, ?_, ?_⟩
    · exact tracks.bounded _ (mem_readJournal (List.getLast_mem hne)).2
    · intro e hmem hseq
      obtain ⟨hsite, -, -⟩ := tracks.own e hmem
      rcases le_or_gt e.originSeq after with hearly | hlate
      · exact .inl (handled_record (hafter.2 e hmem hearly))
      · rcases hahead e hmem hlate with hretained | hhandled
        · obtain ⟨waiting, hwaiting, hkey⟩ :=
            readJournal_covers (List.getLast_mem hne) hlate hseq hretained
          refine .inr ⟨waiting, hwaiting, ?_⟩
          rw [hkey, ← hsite]
          rfl
        · exact .inl (handled_record hhandled)

/-- One entry of the page: it ends in the follower's journal or among its parked events. -/
theorem Tracks.applying {page rest : List JournalEntry}
    (hcall : w.calls call = .applying head page (e :: rest) pageHead) :
    Tracks ends (w.advance ends call a).record := by
  obtain ⟨hsites, last, hlast, hbound, hentries⟩ := tracks.safe_at hcall
  have hsite : e.originSite = ends.origin := hsites e List.mem_cons_self
  unfold Following.advance
  simp only [hcall]
  set applier : Applier := { a with site := ends.puller }
  have hone := applyBatch_cons (a := applier) ends.distinct.symm hsite []
  rcases andThen_state (applyOne applier ends.origin e w.puller) (applyBatch applier ends.origin [])
    with ⟨hstate, hfault⟩ | ⟨hstate, hfault⟩
  · -- A failed entry ends the call.
    have hfailed : (applyBatch applier ends.origin [e] w.puller).fault ≠ none := by
      rw [hone]
      intro hdone
      exact hfault (Outcome.andThen_completed hdone).1
    rw [if_neg hfailed, hone, hstate]
    exact tracks.cursors_kept (applyOne_frame applier ends.origin e w.puller).cursors trivial
  · have hdone : (applyBatch applier ends.origin [e] w.puller).fault = none := by
      rw [hone]
      unfold Outcome.andThen
      rw [hfault]
      rfl
    rw [if_pos hdone, hone, hstate]
    refine tracks.cursors_kept (applyOne_frame applier ends.origin e w.puller).cursors ?_
    refine ⟨fun other hmem => hsites other (List.mem_cons_of_mem e hmem), last, hlast, hbound, ?_⟩
    intro other hmem hseq
    rcases hentries other hmem hseq with hhandled | ⟨waiting, hwaiting, hkey⟩
    · exact .inl (handled_record hhandled)
    · rcases List.mem_cons.mp hwaiting with rfl | hlater
      · exact .inl (handled_of_held hkey
          ((delivery_ends (applyOne_delivery hfault)).imp_left And.left))
      · exact .inr ⟨waiting, hlater, hkey⟩

theorem Tracks.applied {page : List JournalEntry}
    (hcall : w.calls call = .applying head page [] pageHead) :
    Tracks ends (w.advance ends call a).record := by
  obtain ⟨-, last, hlast, hbound, hentries⟩ := tracks.safe_at hcall
  unfold Following.advance
  simp only [hcall]
  refine tracks.moved_to (List.Subset.refl _) (.inl ?_) tracks.acked trivial
  have hcursor : appliedCursor ends
      { w with puller := movePast ends.origin ends.uuid page w.puller } = last.originSeq :=
    movePast_cursor hlast w.puller
  rw [hcursor]
  refine ⟨hbound, ?_⟩
  intro e hmem hseq
  rcases hentries e hmem hseq with hhandled | ⟨waiting, hwaiting, -⟩
  · exact hhandled
  · cases hwaiting

theorem Tracks.resync (hcall : w.calls call = .resync) :
    Tracks ends (w.advance ends call a).record := by
  unfold Following.advance
  simp only [hcall]
  refine tracks.cursors_kept rfl ⟨rfl, ?_⟩
  intro seq hwatermark
  exact ⟨tracks.bounded seq (lookup_watermark hwatermark), fun e hmem _ => hmem⟩

variable {snap : Snapshot} {covers : List JournalEntry}

theorem Tracks.restricting (hcall : w.calls call = .restricting snap covers) :
    Tracks ends (w.advance ends call a).record := by
  have hsafe := tracks.safe_at hcall
  unfold Following.advance
  simp only [hcall]
  split
  · rename_i restricted hran
    exact tracks.cursors_kept (applySnapshotRestrictions_frame ends.origin w.puller hran).cursors
      hsafe
  · exact tracks.cursors_kept rfl trivial

theorem Tracks.importing {p : ManifestPut} {rest : List ManifestPut}
    (hcall : w.calls call = .importing snap covers (p :: rest)) :
    Tracks ends (w.advance ends call a).record := by
  have hsafe := tracks.safe_at hcall
  unfold Following.advance
  simp only [hcall]
  refine tracks.cursors_kept (importManifest_frame _ ends.origin w.puller snap.site p).cursors ?_
  split
  · exact hsafe
  · trivial

end

section

variable (tracks : Tracks ends w)

include tracks

/-- The snapshot is in: what it covers is contained in it, and the cursor is at its watermark. -/
theorem Tracks.imported (a : Applier) (hcall : w.calls call = .importing snap covers []) :
    Tracks ends (w.advance ends call a).record := by
  obtain ⟨hsite, hcovers⟩ := tracks.safe_at hcall
  unfold Following.advance
  simp only [hcall]
  refine tracks.moved_to (List.subset_append_left _ _) ?_ tracks.acked trivial
  unfold appliedCursor adoptWatermark
  rw [hsite]
  cases hwatermark : snap.watermarks.lookup ends.origin with
  | none => exact .inl (tracks.cursor_kept (advanceClock_frame w.puller snap).cursors)
  | some seq =>
    rw [setCursor_cursor]
    obtain ⟨hbound, hall⟩ := hcovers seq hwatermark
    refine .inr ⟨hbound, ?_⟩
    intro e hmem hseq
    exact .inr (.inr (List.mem_append_right _ (hall e hmem hseq)))

theorem Tracks.advance (call : Nat) (a : Applier) : Tracks ends (w.advance ends call a).record := by
  cases hcall : w.calls call with
  | idle =>
    unfold Following.advance
    simp only [hcall]
    refine tracks.moved_to (List.Subset.refl _) (.inl ?_) tracks.acked trivial
    have hcursor := tracks.cursor
    unfold appliedCursor getCursor at hcursor ⊢
    unfold markPeerPollOk
    rw [Table.find_upsert_self]
    cases hfind : w.puller.cursors.find (ends.origin, ends.origin) <;> rwa [hfind] at hcursor
  | polled head => exact tracks.polled a hcall
  | requested head after => exact tracks.requested a hcall
  | headRead head after found => exact tracks.headRead a hcall
  | applying head page rest pageHead =>
    cases rest with
    | nil => exact tracks.applied a hcall
    | cons e rest => exact tracks.applying a hcall
  | resync => exact tracks.resync a hcall
  | restricting snap covers => exact tracks.restricting a hcall
  | importing snap covers rest =>
    cases rest with
    | nil => exact tracks.imported a hcall
    | cons p rest => exact tracks.importing a hcall

theorem Tracks.commit (tx : LocalTx) :
    Tracks ends (Following.record { w with
      origin := (tx.run ends w.origin).1
      appended := w.appended ++ (tx.run ends w.origin).2 }) := by
  have extended := LocalTx.run_extended ends tx w.origin
  generalize (tx.run ends w.origin).1 = origin at extended ⊢
  generalize (tx.run ends w.origin).2 = entries at extended ⊢
  have hcounter := extended.counter
  have hpositive := tracks.counter
  have onward : Onward ends w (Following.record { w with
      origin := origin, appended := w.appended ++ entries }) := by
    refine ⟨hcounter, fun e hhandled => handled_record hhandled, ?_⟩
    intro e hmem
    rcases List.mem_append.mp hmem with hold | hnew
    · exact .inl hold
    · obtain ⟨-, hlow, hhigh⟩ := extended.entries e hnew
      exact .inr ⟨hlow, extended.added e.originSeq hlow hhigh⟩
  refine ⟨hpositive.trans hcounter, ?_, ?_, ?_, ?_, tracks.cursor.onward onward, ?_, ?_⟩
  · intro e hmem
    rcases List.mem_append.mp hmem with hold | hnew
    · obtain ⟨hsite, hlow, hhigh⟩ := tracks.own e hold
      exact ⟨hsite, hlow, hhigh.trans hcounter⟩
    · obtain ⟨hsite, hlow, hhigh⟩ := extended.entries e hnew
      exact ⟨hsite, by omega, hhigh⟩
  · intro seq hretained
    rcases extended.only seq hretained with hold | ⟨-, hhigh⟩
    · exact (tracks.bounded seq hold).trans hcounter
    · exact hhigh
  · intro low seq hlow hle hhigh
    rcases le_or_gt seq w.origin.clock.lastSeq with hold | hnew
    · rcases extended.only low hlow with hretained | ⟨hbeyond, -⟩
      · exact extended.stays seq (tracks.gapless low seq hretained hle hold)
      · omega
    · exact extended.added seq hnew hhigh
  · intro hne
    rcases eq_or_lt_of_le hcounter with hsame | hmore
    · have hentries : entries = [] := by
        refine List.eq_nil_iff_forall_not_mem.mpr fun e hmem => ?_
        obtain ⟨-, hlow, hhigh⟩ := extended.entries e hmem
        omega
      have hold : w.appended ≠ [] := by
        intro hnil
        exact hne (by rw [hentries, List.append_nil]; exact hnil)
      have hnewest := extended.stays _ (tracks.newest hold)
      rw [hsame] at hnewest
      exact hnewest
    · exact extended.added _ hmore le_rfl
  · intro row hrow
    refine (tracks.acked row ?_).onward onward
    rw [← extended.cursors]
    exact hrow
  · intro call
    refine (tracks.calls call).onward onward ?_
    intro head after found _ e _ _ hretained
    exact .inl (extended.stays _ hretained)

/--
Dropping entries keeps the invariant if the newest stays, if what is left is
unbroken, and if a request under way loses only what was handled.
-/
theorem Tracks.pruned {dropped : Int → Prop} (hkept : ∀ seq, Retained journal ends.origin seq ↔
      Retained w.origin.journal ends.origin seq ∧ ¬ dropped seq)
    (hbelow : ∀ seq, dropped seq → seq < (journalHead w.origin.journal ends.origin).1)
    (holdest : ∀ low seq, low ≤ seq → Retained w.origin.journal ends.origin low →
      dropped seq → dropped low)
    (hreads : ∀ call head after found, w.calls call = .headRead head after found →
      ∀ e ∈ w.appended, after < e.originSeq → dropped e.originSeq → Handled w e) :
    Tracks ends (Following.record { w with origin := { w.origin with journal := journal } }) := by
  have onward : Onward ends w
      (Following.record { w with origin := { w.origin with journal := journal } }) :=
    ⟨le_rfl, fun e hhandled => handled_record hhandled, fun e hmem => .inl hmem⟩
  refine ⟨tracks.counter, tracks.own, ?_, ?_, ?_, tracks.cursor.onward onward, ?_, ?_⟩
  · exact fun seq hretained => tracks.bounded seq ((hkept seq).mp hretained).1
  · intro low seq hlow hle hhigh
    obtain ⟨hretained, hstays⟩ := (hkept low).mp hlow
    refine (hkept seq).mpr ⟨tracks.gapless low seq hretained hle hhigh, ?_⟩
    exact fun hdropped => hstays (holdest low seq hle hretained hdropped)
  · intro hne
    have hnewest := tracks.newest hne
    refine (hkept _).mpr ⟨hnewest, ?_⟩
    intro hdropped
    have hhead := tracks.bounded _ (journalHead_retained hnewest)
    have hlower : w.origin.clock.lastSeq < _ := hbelow _ hdropped
    omega
  · exact fun row hrow => (tracks.acked row hrow).onward onward
  · intro call
    refine (tracks.calls call).onward onward ?_
    intro head after found hcall e hmem hafter hretained
    by_cases hdropped : dropped e.originSeq
    · exact .inr (handled_record (hreads call head after found hcall e hmem hafter hdropped))
    · exact .inl ((hkept _).mpr ⟨hretained, hdropped⟩)

end

theorem retained_keep {origin : String} (test : String × Int → JournalRow → Bool) :
    Retained (journal.keep test) origin seq ↔
      ∃ row, journal.find (origin, seq) = some row ∧ test (origin, seq) row = true := by
  unfold Retained
  rw [Table.find_keep, Option.isSome_iff_exists]
  simp only [Option.filter_eq_some_iff]

/-- The retention prune drops this entry: it started before the cutoff and is not the newest. -/
def Expires (ends : Ends) (s : SiteState) (cutoff seq : Int) : Prop :=
  (∃ row, s.journal.find (ends.origin, seq) = some row ∧ row.createdAt < cutoff) ∧
    seq < (journalHead s.journal ends.origin).1

/-- The acknowledgement prune drops this entry: the peers have read it and it is not the newest. -/
def Acknowledged (ends : Ends) (s : SiteState) (peers : List String) (seq : Int) : Prop :=
  (∃ watermark, minCursorAcrossPeers s ends.origin peers = some watermark ∧ 0 < watermark ∧
    seq ≤ watermark) ∧ seq < (journalHead s.journal ends.origin).1

theorem pruneExpired_kept (ends : Ends) (s : SiteState) (cutoff seq : Int) :
    Retained (pruneExpired cutoff s).journal ends.origin seq ↔
      Retained s.journal ends.origin seq ∧ ¬ Expires ends s cutoff seq := by
  unfold pruneExpired pruneJournalOlderThan Expires
  rw [retained_keep]
  unfold Retained
  cases hfind : s.journal.find (ends.origin, seq) with
  | none => simp
  | some row => simp [imp_iff_not_or]

theorem pruneAcknowledged_eq (ends : Ends) (peers : List String) (s : SiteState) :
    ∃ journal, pruneAcknowledged ends.origin peers s = { s with journal := journal } ∧
      ∀ seq, Retained journal ends.origin seq ↔
        Retained s.journal ends.origin seq ∧ ¬ Acknowledged ends s peers seq := by
  unfold pruneAcknowledged Acknowledged
  cases hmin : minCursorAcrossPeers s ends.origin peers with
  | none => exact ⟨s.journal, rfl, by simp⟩
  | some watermark =>
    dsimp only
    split
    · rename_i hpositive
      refine ⟨_, rfl, ?_⟩
      intro seq
      unfold pruneJournal
      rw [retained_keep]
      unfold Retained
      cases hfind : s.journal.find (ends.origin, seq) with
      | none => simp
      | some row => simp [hpositive, imp_iff_not_or]
    · rename_i hzero
      refine ⟨s.journal, rfl, ?_⟩
      intro seq
      simp [hzero]

theorem minCursor_le {origin peer : String} {peers : List String} {watermark : Int}
    (hmin : minCursorAcrossPeers s origin peers = some watermark) (hpeer : peer ∈ peers) :
    ∃ row, s.cursors.find (peer, origin) = some row ∧ watermark ≤ row.durableSeq := by
  unfold minCursorAcrossPeers at hmin
  dsimp only at hmin
  set found := s.cursors.rows.filter fun row => row.1.2 = origin && row.1.1 ∈ peers with hfound
  split at hmin
  · cases hmin
  · rename_i hcounted
    simp only [Bool.or_eq_true, decide_eq_true_eq, not_or, not_lt] at hcounted
    have hrows : ∀ row ∈ found, row ∈ s.cursors.rows ∧ row.1.2 = origin ∧ row.1.1 ∈ peers := by
      intro row hmem
      obtain ⟨hrow, htest⟩ := List.mem_filter.mp hmem
      simp only [Bool.and_eq_true, decide_eq_true_eq] at htest
      exact ⟨hrow, htest⟩
    -- As many rows as peers, of distinct peers: every peer has its row.
    have hdistinct : (found.map fun row => row.1.1).Nodup := by
      have hkeys : (found.map Prod.fst).Nodup :=
        s.cursors.nodup_keys_rows.sublist (List.filter_sublist.map Prod.fst)
      refine List.Nodup.map_on ?_ (List.Nodup.of_map Prod.fst hkeys)
      intro left hleft right hright heq
      refine List.inj_on_of_nodup_map hkeys hleft hright ?_
      exact Prod.ext heq ((hrows left hleft).2.1.trans (hrows right hright).2.1.symm)
    have hsubset : (found.map fun row => row.1.1) ⊆ peers := by
      intro name hmem
      obtain ⟨row, hrow, rfl⟩ := List.mem_map.mp hmem
      exact (hrows row hrow).2.2
    have hall := (List.subperm_of_subset hdistinct hsubset).perm_of_length_le
      (by rw [List.length_map]; exact hcounted.2)
    obtain ⟨⟨⟨name, site⟩, row⟩, hrow, rfl⟩ := List.mem_map.mp (hall.mem_iff.mpr hpeer)
    obtain ⟨hstored, rfl, -⟩ := hrows _ hrow
    refine ⟨row, (s.cursors.mem_rows_iff (name, site) row).mp hstored, ?_⟩
    exact (List.min?_eq_some_iff.mp hmin).2 _ (List.mem_map_of_mem hrow)

/-! ## Every run -/

def Reading (w : Following) (after : Int) : Prop :=
  ∃ call head found, w.calls call = .headRead head after found

/--
What pruning has to respect.  The retention prune drops an entry only together
with the older ones, and nothing a request between its two reads has yet to
read; the acknowledgement prune counts the follower or also spares such requests.
-/
def Orderly (ends : Ends) (w : Following) : FollowStep → Prop
  | .pruneExpired cutoff =>
    (∀ low seq, low ≤ seq → Retained w.origin.journal ends.origin low →
      Expires ends w.origin cutoff seq → Expires ends w.origin cutoff low) ∧
    ∀ after seq, Reading w after → after < seq → ¬ Expires ends w.origin cutoff seq
  | .pruneAcknowledged peers =>
    ends.puller ∈ peers ∨
      ∀ after seq, Reading w after → after < seq → ¬ Acknowledged ends w.origin peers seq
  | _ => True

theorem Tracks.step (tracks : Tracks ends w) (step : FollowStep) (orderly : Orderly ends w step) :
    Tracks ends (step.run ends w) := by
  unfold FollowStep.run FollowStep.act
  cases step with
  | commit tx => exact tracks.commit tx
  | pruneAcknowledged peers =>
    obtain ⟨journal, heq, hkept⟩ := pruneAcknowledged_eq ends peers w.origin
    dsimp only
    rw [heq]
    refine tracks.pruned hkept (fun seq hdropped => hdropped.2) ?_ ?_
    · rintro low seq hle - ⟨⟨watermark, hmin, hpositive, hseq⟩, hhead⟩
      exact ⟨⟨watermark, hmin, hpositive, hle.trans hseq⟩, hle.trans_lt hhead⟩
    · intro call head after found hcall e hmem hafter hdropped
      rcases orderly with hcounted | hspared
      · obtain ⟨⟨watermark, hmin, -, hseq⟩, -⟩ := hdropped
        obtain ⟨row, hrow, hle⟩ := minCursor_le hmin hcounted
        exact (tracks.acked row hrow).2 e hmem (hseq.trans hle)
      · exact absurd hdropped (hspared after e.originSeq ⟨call, head, found, hcall⟩ hafter)
  | pruneExpired cutoff =>
    obtain ⟨holdest, hspared⟩ := orderly
    refine tracks.pruned (pruneExpired_kept ends w.origin cutoff)
      (fun seq hdropped => hdropped.2) holdest ?_
    intro call head after found hcall e hmem hafter hdropped
    exact absurd hdropped (hspared after e.originSeq ⟨call, head, found, hcall⟩ hafter)
  | advance call a => exact tracks.advance call a
  | crash call => exact tracks.cursors_kept rfl trivial
  | retryParked a budget =>
    exact tracks.puller_changed (retryAll_frame _ ends.origin w.puller _).cursors
  | expire cutoff => exact tracks.puller_changed rfl

end Step

/-- A stream at its start: nothing was journaled, read or acknowledged, and no call is under way. -/
structure Fresh (ends : Ends) (w : Following) : Prop where
  counter : w.origin.clock.lastSeq = 0
  journal : ∀ seq, ¬ Retained w.origin.journal ends.origin seq
  cursor : appliedCursor ends w = 0
  acked : w.origin.cursors.find (ends.puller, ends.origin) = none
  calls : ∀ call, w.calls call = .idle
  appended : w.appended = []

theorem Fresh.tracks {ends : Ends} {w : Following} (fresh : Fresh ends w) : Tracks ends w := by
  have hnone : ∀ seq, seq ≤ 0 → Covered w seq := by
    intro seq hseq
    refine ⟨by rw [fresh.counter]; exact hseq, ?_⟩
    intro e hmem
    rw [fresh.appended] at hmem
    cases hmem
  refine ⟨fresh.counter.ge, ?_, ?_, ?_, ?_, hnone _ fresh.cursor.le, ?_, ?_⟩
  · intro e hmem
    rw [fresh.appended] at hmem
    cases hmem
  · exact fun seq hretained => absurd hretained (fresh.journal seq)
  · exact fun low seq hretained => absurd hretained (fresh.journal low)
  · exact fun hne => absurd fresh.appended hne
  · intro row hrow
    rw [fresh.acked] at hrow
    cases hrow
  · intro call
    rw [fresh.calls call]
    trivial

/--
In every interleaving of local transactions, prunes, journal requests, polls and
crashes whose prunes are orderly, every entry of the origin up to the follower's
cursor was applied, parked, or contained in a snapshot the follower imported.
-/
theorem no_entry_skipped (ends : Ends) (start : Following) (fresh : Fresh ends start)
    (steps : List FollowStep)
    (orderly : Meets (FollowStep.run ends) (Orderly ends) steps start) :
    NoneSkipped ends (runAll (FollowStep.run ends) steps start) := by
  have hstep : ∀ w step, Tracks ends w → Orderly ends w step →
      Tracks ends (FollowStep.run ends step w) :=
    fun w step tracks orderly => tracks.step step orderly
  exact (invariant_runAll hstep fresh.tracks orderly).cursor.2

/-! ## A stream of block decisions -/

def sampleEnds : Ends where
  origin := "east"
  puller := "north"
  distinct := by decide
  uuid := "east-1"
  pg := .plain

def blocking (startedAt : Int) (coordinate : String) : LocalTx where
  startedAt := startedAt
  events := [(.quarantineSet (.ok ⟨"npm", coordinate, "manual", ""⟩), 100)]

def emptyStream : Following where
  origin := {}
  puller := {}

theorem emptyStream_fresh : Fresh sampleEnds emptyStream :=
  ⟨rfl, fun _ hretained => (nomatch hretained), rfl, rfl, fun _ => rfl, rfl⟩

/-- So many steps of one `catchUp` call. -/
def advances (count : Nat) : List FollowStep :=
  List.replicate count (.advance 0 (lazyApplier "north" 200))

def resyncSteps : List FollowStep :=
  [.commit (blocking 10 "a@1"), .commit (blocking 20 "b@1"), .commit (blocking 30 "c@1"),
    .pruneExpired 25] ++ advances 6 ++ [.commit (blocking 40 "d@1")] ++ advances 6

theorem no_entry_skipped_resync :
    NoneSkipped sampleEnds (runAll (FollowStep.run sampleEnds) resyncSteps emptyStream) ∧
      appliedCursor sampleEnds (runAll (FollowStep.run sampleEnds) resyncSteps emptyStream) = 4 ∧
      (runAll (FollowStep.run sampleEnds) resyncSteps emptyStream).contained.length = 3 := by
  refine ⟨?_, by decide +kernel, by decide +kernel⟩
  refine no_entry_skipped sampleEnds emptyStream emptyStream_fresh resyncSteps ?_
  refine ⟨trivial, trivial, trivial, ⟨?_, ?_⟩, ?_⟩
  · rintro low seq hle hretained ⟨-, hhead⟩
    have hmem : low ∈ [(3 : Int), 2, 1] := mem_retainedSeqs.mpr hretained
    have hlow : low < 3 := hle.trans_lt hhead
    have hcases : low = 2 ∨ low = 1 := by
      simp only [List.mem_cons, List.not_mem_nil, or_false] at hmem
      omega
    rcases hcases with rfl | rfl
    · exact ⟨⟨_, rfl, by decide⟩, hlow⟩
    · exact ⟨⟨_, rfl, by decide⟩, hlow⟩
  · rintro after seq ⟨call, head, found, hcall⟩
    cases hcall
  · trivial

def outOfOrderSteps : List FollowStep :=
  [.commit (blocking 20 "a@1"), .commit (blocking 10 "b@1"), .commit (blocking 30 "c@1"),
    .pruneExpired 15] ++ advances 8

theorem retention_skips_entry :
    Fresh sampleEnds emptyStream ∧
      ¬ NoneSkipped sampleEnds (runAll (FollowStep.run sampleEnds) outOfOrderSteps emptyStream) :=
  ⟨emptyStream_fresh, by decide +kernel⟩

end FondacoFormal.Safety
