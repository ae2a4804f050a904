import FondacoFormal.Safety.JournalGaps

/-!
# How far a stream is durable

`durable_seq` is meant to say up to where every published blob of an origin is here.
-/

namespace FondacoFormal.Safety

open Library Library.Runs State Repl

/-! ## A stream and what happens to it -/

/-- An origin and every entry it ever journals; sequence numbers begin at one. -/
structure Stream where
  origin : String
  history : List JournalEntry
  positive : ∀ e ∈ history, 0 < e.originSeq

inductive StreamStep where
  /-- One page of `catchUp`. -/
  | page (a : Applier) (uuid : String) (entries : List JournalEntry)
  | bootstrap (a : Applier) (snap : Snapshot)
  /-- `MarkPeerPollOK`. -/
  | polled (uuid : String)
  | restarted (uuid : String)
  | retryParked (a : Applier) (budget : Nat)
  | fetched (sha : String)

def StreamStep.act (st : Stream) : StreamStep → SiteState → SiteState
  | page a uuid entries, s => (applyPage a st.origin uuid entries s).state
  | bootstrap a snap, s => (Repl.bootstrap a st.origin snap s).state
  | polled uuid, s => markPeerPollOk s st.origin st.origin uuid
  | restarted uuid, s =>
    setCursor (forgetOriginJournal s st.origin) st.origin st.origin ⟨0, 0, uuid⟩
  | retryParked a budget, s => (Repl.retryParked a st.origin budget s).state
  | fetched sha, s => storeBlob sha s

/-! ## The property -/

/-- The entry is a `manifest_put` of this blob. -/
def NamesBlob (e : JournalEntry) (sha : String) : Prop :=
  ∃ p, e.event = .manifestPut (.ok p) ∧ p.sha256 = sha ∧ sha ≠ ""

/-- The `durable_seq` a stream has reached. -/
def durableSeq (st : Stream) (s : SiteState) : Int :=
  (getCursor s st.origin st.origin).durableSeq

def BlobsHere (st : Stream) (s : SiteState) (seq : Int) : Prop :=
  ∀ e ∈ st.history, e.originSeq ≤ seq → ∀ sha, NamesBlob e sha → sha ∈ s.blobs

/-- `replicationBehind`, with the `last_error` column and the configured peers. -/
def replicationBehind (lastError : String × String → String) (peers : List String)
    (s : SiteState) : Bool :=
  !s.parked.isEmpty ||
    s.cursors.rows.any (fun row => lastError row.1 ≠ "" || row.2.durableSeq < row.2.appliedSeq) ||
    peers.any fun peer => !s.cursors.rows.any fun row => row.1.1 = peer

/-- A site that follows the stream and is reported as caught up has every blob up to its
cursor. -/
def CaughtUpHonestly (st : Stream) (s : SiteState) : Prop :=
  ∀ lastError peers, st.origin ∈ peers → replicationBehind lastError peers s = false →
    BlobsHere st s (getCursor s st.origin st.origin).appliedSeq

/-- The condition on a step: when a page is applied, the entries of the stream up to its end that
are not in the page have their blobs here. -/
def HolesClosed (st : Stream) (s : SiteState) : StreamStep → Prop
  | .page _ _ entries => ∀ last, entries.getLast? = some last → ∀ e ∈ st.history, e ∉ entries →
      e.originSeq ≤ last.originSeq → ∀ sha, NamesBlob e sha → sha ∈ s.blobs
  | _ => True

/-! ## What one page makes durable -/

theorem missingBefore_le (s : SiteState) (e : JournalEntry) (durable : Int) :
    missingBefore s e durable ≤ durable := by
  rw [missingBefore]
  split
  · split_ifs <;> omega
  · exact le_refl _

variable {s : SiteState} {e : JournalEntry}

theorem missingBefore_lt {sha : String} (hnames : NamesBlob e sha) (hmissing : sha ∉ s.blobs)
    (durable : Int) : missingBefore s e durable ≤ e.originSeq - 1 := by
  obtain ⟨p, hevent, rfl, hne⟩ := hnames
  simp only [missingBefore, hevent]
  split_ifs with hstops
  · exact le_refl _
  · by_contra hbeyond
    exact hstops ⟨hne, hmissing, by omega⟩

/-- No page makes durable what lies behind its end or at an entry whose blob is missing. -/
theorem foldl_missingBefore (s : SiteState) (entries : List JournalEntry) (durable : Int) :
    entries.foldl (fun durable e => missingBefore s e durable) durable ≤ durable ∧
      ∀ e ∈ entries, ∀ sha, NamesBlob e sha → sha ∉ s.blobs →
        entries.foldl (fun durable e => missingBefore s e durable) durable < e.originSeq := by
  induction entries generalizing durable with
  | nil => exact ⟨le_refl _, List.forall_mem_nil _⟩
  | cons first rest ih =>
    obtain ⟨hle, hstops⟩ := ih (missingBefore s first durable)
    refine ⟨hle.trans (missingBefore_le s first durable), ?_⟩
    intro e hmem sha hnames hmissing
    rcases List.mem_cons.mp hmem with rfl | hrest
    · have hhere := missingBefore_lt hnames hmissing durable
      rw [List.foldl_cons]
      omega
    · exact hstops e hrest sha hnames hmissing

variable {entries : List JournalEntry}

theorem durableThrough_honest {fallback : Int} (hpositive : 0 < e.originSeq)
    (hdurable : e.originSeq ≤ durableThrough s entries fallback) :
    e.originSeq ≤ fallback ∧
      (e ∈ entries → ∀ sha, NamesBlob e sha → sha ∈ s.blobs) := by
  obtain ⟨hle, hstops⟩ := foldl_missingBefore s entries fallback
  rw [durableThrough] at hdurable
  constructor
  · omega
  · intro hmem sha hnames
    by_contra hmissing
    have := hstops e hmem sha hnames hmissing
    omega

/-! ## The cursor after a step -/

theorem setCursor_durable (s : SiteState) (peer origin : String) (c : CursorRow) :
    (getCursor (setCursor s peer origin c) peer origin).durableSeq ≤ c.durableSeq := by
  rw [getCursor, setCursor]
  dsimp only
  rw [Table.find_upsert_self]
  cases s.cursors.find (peer, origin) with
  | none => exact le_refl _
  | some stored => exact min_le_left _ _

theorem BlobsHere.frame {st : Stream} {s t : SiteState} (h : BlobsHere st s (durableSeq st s))
    (hframe : CursorFrame s t) : BlobsHere st t (durableSeq st t) := by
  intro e hmem hseq sha hnames
  rw [durableSeq, getCursor, hframe.cursors] at hseq
  exact hframe.blobs (h e hmem hseq sha hnames)

theorem blobsHere_zero (st : Stream) (s : SiteState) {seq : Int} (hseq : seq ≤ 0) :
    BlobsHere st s seq := by
  intro e hmem hle
  have := st.positive e hmem
  omega

variable (a : Applier)

theorem applyBatch_frame (peer : String) (entries : List JournalEntry) (s : SiteState) :
    CursorFrame s (applyBatch a peer entries s).state := by
  induction entries generalizing s with
  | nil => exact .refl s
  | cons e rest ih =>
    rw [applyBatch]
    split
    · exact ih s
    · split
      · exact (applyOne_frame a peer e s).andThen ih
      · exact .refl s

theorem importManifests_frame (peer site : String) (manifests : List ManifestPut) (s : SiteState) :
    CursorFrame s (importManifests a peer site manifests s).state := by
  induction manifests generalizing s with
  | nil => exact .refl s
  | cons p rest ih => exact (importManifest_frame a peer s site p).andThen ih

/-! ## Every step -/

section Step

variable {st : Stream} {s : SiteState} (h : BlobsHere st s (durableSeq st s))

include h

theorem movePast_honest (uuid : String)
    (hclosed : ∀ last, entries.getLast? = some last → ∀ e ∈ st.history, e ∉ entries →
      e.originSeq ≤ last.originSeq → ∀ sha, NamesBlob e sha → sha ∈ s.blobs) :
    BlobsHere st (movePast st.origin uuid entries s)
      (durableSeq st (movePast st.origin uuid entries s)) := by
  rw [movePast]
  cases hlast : entries.getLast? with
  | none => exact h
  | some last =>
    intro e hmem hseq sha hnames
    have hdurable := hseq.trans (setCursor_durable _ _ _ _)
    obtain ⟨hbefore, hpage⟩ := durableThrough_honest (st.positive e hmem) hdurable
    by_cases hin : e ∈ entries
    · exact hpage hin sha hnames
    · exact hclosed last hlast e hmem hin hbefore sha hnames

theorem page_honest (uuid : String) (hclosed : HolesClosed st s (.page a uuid entries)) :
    BlobsHere st (applyPage a st.origin uuid entries s).state
      (durableSeq st (applyPage a st.origin uuid entries s).state) := by
  have hframe := applyBatch_frame a st.origin entries s
  rw [applyPage]
  rcases andThen_state (applyBatch a st.origin entries s)
    (fun applied => { state := movePast st.origin uuid entries applied }) with
    ⟨hstate, -⟩ | ⟨hstate, -⟩
  · rw [hstate]
    exact h.frame hframe
  · rw [hstate]
    refine movePast_honest (h.frame hframe) uuid ?_
    intro last hlast e hmem hout hseq sha hnames
    exact hframe.blobs (hclosed last hlast e hmem hout hseq sha hnames)

theorem bootstrap_honest (snap : Snapshot) :
    BlobsHere st (Repl.bootstrap a st.origin snap s).state
      (durableSeq st (Repl.bootstrap a st.origin snap s).state) := by
  rw [Repl.bootstrap]
  split
  · exact h
  · rename_i hsite
    rw [not_not] at hsite
    split
    · exact h
    · rename_i restricted hran
      have hframe := (applySnapshotRestrictions_frame st.origin s hran).trans
        (importManifests_frame a st.origin snap.site snap.manifests restricted)
      rcases andThen_state (importManifests a st.origin snap.site snap.manifests restricted)
        (fun imported =>
          { state := adoptWatermark st.origin snap (advanceClockPastSnapshot snap imported) }) with
        ⟨hstate, -⟩ | ⟨hstate, -⟩
      · rw [hstate]
        exact h.frame hframe
      · rw [hsite] at hframe
        rw [hstate, adoptWatermark, hsite]
        cases hseq : snap.watermarks.lookup st.origin with
        | none => exact h.frame (hframe.trans (advanceClock_frame _ snap))
        | some seq => exact blobsHere_zero st _ (setCursor_durable _ _ _ _)

theorem step_honest (step : StreamStep) (hclosed : HolesClosed st s step) :
    BlobsHere st (step.act st s) (durableSeq st (step.act st s)) := by
  cases step with
  | page a uuid entries => exact page_honest a h uuid hclosed
  | bootstrap a snap => exact bootstrap_honest a h snap
  | polled uuid =>
    intro e hmem hseq
    refine h e hmem (hseq.trans (le_of_eq ?_))
    rw [durableSeq, durableSeq, getCursor, getCursor, StreamStep.act, markPeerPollOk]
    dsimp only
    rw [Table.find_upsert_self]
    cases s.cursors.find (st.origin, st.origin) <;> rfl
  | restarted uuid => exact blobsHere_zero st _ (setCursor_durable _ _ _ _)
  | retryParked a budget => exact h.frame (retryAll_frame a st.origin s _)
  | fetched sha => exact h.frame ⟨rfl, Finset.subset_insert sha s.blobs⟩

end Step

/-- The report of `gc` rests on the cursor rows: applied is not ahead of durable. -/
theorem BlobsHere.caughtUp {st : Stream} (h : BlobsHere st s (durableSeq st s)) :
    CaughtUpHonestly st s := by
  intro lastError peers hpeer hbehind e hmem hseq
  refine h e hmem (hseq.trans ?_)
  rw [durableSeq, getCursor]
  cases hfind : s.cursors.find (st.origin, st.origin) with
  | none => exact le_refl _
  | some row =>
    have hrow := (s.cursors.mem_rows_iff _ row).mpr hfind
    simp only [replicationBehind, Bool.or_eq_false_iff, List.any_eq_false] at hbehind
    have hsettled := hbehind.1.2 _ hrow
    simp only [ne_eq, decide_not, Bool.or_eq_true, Bool.not_eq_true', decide_eq_true_eq,
      not_or, not_lt] at hsettled
    exact hsettled.2

/--
In every run of pages, bootstraps, restarts and fetches in which no page is
applied while an earlier entry's blob is missing, every blob up to `durable_seq`
is here, and a site that is reported as caught up has every blob up to its
cursor.
-/
theorem durable_seq_honest (st : Stream) (start : SiteState)
    (unread : start.cursors.find (st.origin, st.origin) = none) (steps : List StreamStep)
    (closed : Meets (StreamStep.act st) (HolesClosed st) steps start) :
    BlobsHere st (runAll (StreamStep.act st) steps start)
        (durableSeq st (runAll (StreamStep.act st) steps start)) ∧
      CaughtUpHonestly st (runAll (StreamStep.act st) steps start) := by
  have hstart : BlobsHere st start (durableSeq st start) :=
    blobsHere_zero st start (by rw [durableSeq, getCursor, unread]; exact le_refl _)
  have hrun := invariant_runAll (P := fun s => BlobsHere st s (durableSeq st s))
    (fun _ step h hclosed => step_honest h step hclosed) hstart closed
  exact ⟨hrun, hrun.caughtUp⟩

/-! ## A hole that the next page forgets -/

def publishing (seq : Int) (c : Char) : JournalEntry :=
  ⟨"east", seq, .manifestPut (.ok
    { feed := "npm", path := String.ofList [c], coord := "pkg@1", sha256 := digestOf c }),
    ⟨100 + seq, 0⟩, 1⟩

def twoBlobs : Stream where
  origin := "east"
  history := [publishing 1 'a', publishing 2 'b']
  positive := by decide

def pageOf (e : JournalEntry) : StreamStep :=
  .page (lazyApplier "north" 200) "east-1" [e]

def fetchedSteps : List StreamStep :=
  [pageOf (publishing 1 'a'), .fetched (digestOf 'a'), .fetched (digestOf 'b'),
    pageOf (publishing 2 'b')]

theorem durable_seq_honest_fetched :
    durableSeq twoBlobs (runAll (StreamStep.act twoBlobs) fetchedSteps {}) = 2 ∧
      BlobsHere twoBlobs (runAll (StreamStep.act twoBlobs) fetchedSteps {}) 2 := by
  have hdurable : durableSeq twoBlobs (runAll (StreamStep.act twoBlobs) fetchedSteps {}) = 2 := by
    decide +kernel
  refine ⟨hdurable, ?_⟩
  rw [← hdurable]
  refine (durable_seq_honest twoBlobs {} rfl fetchedSteps ⟨?_, trivial, trivial, ?_, trivial⟩).1
  · intro last hlast e hmem hout hseq
    cases hlast
    simp only [twoBlobs, List.mem_cons, List.not_mem_nil, or_false] at hmem hout
    rcases hmem with rfl | rfl
    · exact absurd rfl hout
    · exact absurd hseq (by decide)
  · rintro last hlast e hmem hout hseq sha ⟨p, hevent, rfl, -⟩
    simp only [twoBlobs, List.mem_cons, List.not_mem_nil, or_false] at hmem hout
    rcases hmem with rfl | rfl
    · cases hevent
      decide +kernel
    · exact absurd rfl hout

def forgottenSteps : List StreamStep :=
  [pageOf (publishing 1 'a'), .fetched (digestOf 'b'), pageOf (publishing 2 'b')]

/-- The first blob never arrives; the page after it declares both durable, and nothing is
reported as behind. -/
theorem hole_forgotten :
    durableSeq twoBlobs (runAll (StreamStep.act twoBlobs) forgottenSteps {}) = 2 ∧
      replicationBehind (fun _ => "") ["east"]
        (runAll (StreamStep.act twoBlobs) forgottenSteps {}) = false ∧
      ¬ BlobsHere twoBlobs (runAll (StreamStep.act twoBlobs) forgottenSteps {}) 2 := by
  refine ⟨by decide +kernel, by decide +kernel, ?_⟩
  intro h
  have hhere := h (publishing 1 'a') List.mem_cons_self (by decide) (digestOf 'a')
    ⟨_, rfl, rfl, by decide⟩
  revert hhere
  decide +kernel

end FondacoFormal.Safety
