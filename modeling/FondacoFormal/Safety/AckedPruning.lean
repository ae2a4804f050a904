import FondacoFormal.Safety.JournalGaps

/-!
# Pruning what every peer has acknowledged

One site and the peers that read its journal.
-/

namespace FondacoFormal.Safety

open Library Library.Runs State Repl

structure Source where
  site : String
  pg : Postgres
  peers : List String

/-- A journal request between `JournalHead` and `ReadJournal`. -/
structure JournalRequest where
  peer : String
  after : Int
  head : Int
  deriving DecidableEq, Repr

/-- The site, the requests and prunes under way, and how much of its journal each peer has
really applied. -/
structure Acking where
  state : SiteState
  applied : String → Int := fun _ => 0
  requests : Nat → Option JournalRequest := fun _ => none
  /-- The watermark a `pruneJournal` call has read and not used yet. -/
  prunes : Nat → Option Int := fun _ => none

inductive AckStep where
  | commit (tx : LocalTx)
  | apply (peer : String) (seq : Int)
  /-- A peer asks for what comes after a cursor it has applied: `JournalHead` and the 410 test. -/
  | request (call : Nat) (peer : String) (after : Int)
  /-- The rest of `handleJournal`. -/
  | answer (call : Nat)
  /-- `MinCursorAcrossPeers` of a `pruneJournal` call. -/
  | watermark (call : Nat)
  /-- `PruneJournal` of the same call. -/
  | prune (call : Nat)
  | pull (peer origin : String) (cursor : CursorRow)
  | polled (peer origin uuid : String)

def Source.commit (source : Source) (tx : LocalTx) (s : SiteState) : SiteState :=
  match appendAll source.pg source.site tx.startedAt tx.events (tx.body s) with
  | .ok (next, _) => next
  | .error _ => s

/-- The acknowledgement `handleJournal` records, bounded by the head it read. -/
def JournalRequest.acknowledged (request : JournalRequest) (site : String) (s : SiteState) :
    SiteState :=
  if 0 < request.after ∧ request.after ≤ request.head then
    recordPeerAck s request.peer site request.after
  else s

namespace AckStep

/-- The step itself; a peer asks only for what follows a cursor it has applied, and the site
pulls no stream of its own. -/
def act (source : Source) : AckStep → Acking → Acking
  | commit tx, w => { w with state := source.commit tx w.state }
  | apply peer seq, w =>
    { w with applied := Function.update w.applied peer (max (w.applied peer) seq) }
  | request call peer after, w =>
    let found := journalHead w.state.journal source.site
    if w.applied peer < after ∨ beyondRetention found after then w
    else { w with requests := Function.update w.requests call (some ⟨peer, after, found.1⟩) }
  | answer call, w =>
    match w.requests call with
    | none => w
    | some asked =>
      { w with
        state := asked.acknowledged source.site w.state
        requests := Function.update w.requests call none }
  | watermark call, w =>
    let least := minCursorAcrossPeers w.state source.site source.peers
    { w with prunes := Function.update w.prunes call least }
  | prune call, w =>
    match w.prunes call with
    | none => w
    | some least =>
      let pruned := pruneJournal w.state.journal source.site (least + 1)
      { w with
        state := if 0 < least then { w.state with journal := pruned } else w.state
        prunes := Function.update w.prunes call none }
  | pull peer origin cursor, w =>
    if origin = source.site then w else { w with state := setCursor w.state peer origin cursor }
  | polled peer origin uuid, w =>
    if origin = source.site then w
    else { w with state := markPeerPollOk w.state peer origin uuid }

end AckStep

/-! ## The property -/

def Own (w : Acking) (seq : Int) : Prop :=
  1 ≤ seq ∧ seq ≤ w.state.clock.lastSeq

structure PruningSafe (source : Source) (w : Acking) : Prop where
  /-- An entry above the cursor of some configured peer is there. -/
  kept : ∀ seq, Own w seq → (∃ peer ∈ source.peers, w.applied peer < seq) →
    Retained w.state.journal source.site seq
  /-- A configured peer that never acknowledged keeps every entry there. -/
  silent : ∀ peer ∈ source.peers, w.state.cursors.find (peer, source.site) = none →
    ∀ seq, Own w seq → Retained w.state.journal source.site seq
  /-- A configured peer that asks with its cursor is not answered 410. -/
  served : ∀ peer ∈ source.peers,
    beyondRetention (journalHead w.state.journal source.site) (w.applied peer) = false

/-! ## The invariant -/

def AckedBy (source : Source) (s : SiteState) (peer : String) (seq : Int) : Prop :=
  ∃ row, s.cursors.find (peer, source.site) = some row ∧ seq ≤ row.durableSeq

/-- What holds throughout: an entry is gone only if every configured peer acknowledged it, and a
peer has applied what it acknowledged. -/
structure Sound (source : Source) (w : Acking) : Prop where
  gone : ∀ seq, Own w seq → ¬ Retained w.state.journal source.site seq →
    ∀ peer ∈ source.peers, AckedBy source w.state peer seq
  acked : ∀ peer row, w.state.cursors.find (peer, source.site) = some row →
    row.durableSeq ≤ w.applied peer
  applied : ∀ peer, 0 ≤ w.applied peer
  bounded : ∀ seq, Retained w.state.journal source.site seq → seq ≤ w.state.clock.lastSeq
  requests : ∀ call request, w.requests call = some request →
    request.after ≤ w.applied request.peer
  prunes : ∀ call least, w.prunes call = some least →
    ∀ peer ∈ source.peers, AckedBy source w.state peer least

/-- The least retained sequence number is the oldest one `JournalHead` reports. -/
theorem journalHead_oldest (journal : Table (String × Int) JournalRow) (origin : String) :
    (journalHead journal origin).2 = 0 ∨
      Retained journal origin (journalHead journal origin).2 ∧
        ∀ seq, Retained journal origin seq → (journalHead journal origin).2 ≤ seq := by
  rw [journalHead]
  cases hmin : (retainedSeqs journal origin).min? with
  | none => exact .inl rfl
  | some oldest =>
    obtain ⟨hmem, hleast⟩ := List.min?_eq_some_iff.mp hmin
    exact .inr ⟨mem_retainedSeqs.mp hmem, fun seq hkept => hleast seq (mem_retainedSeqs.mpr hkept)⟩

variable {requests : Nat → Option JournalRequest} {journal : Table (String × Int) JournalRow}
  {state : SiteState} {origin : String} {below seq : Int} {peer : String}

namespace Sound

variable {source : Source} {w : Acking}

section

variable (sound : Sound source w)

include sound

theorem ackedBy_le {seq : Int} (hacked : AckedBy source w.state peer seq) :
    seq ≤ w.applied peer := by
  obtain ⟨row, hrow, hle⟩ := hacked
  exact hle.trans (sound.acked peer row hrow)

theorem pruningSafe : PruningSafe source w := by
  constructor
  · rintro seq hown ⟨peer, hpeer, hless⟩
    by_contra hgone
    have := sound.ackedBy_le (sound.gone seq hown hgone peer hpeer)
    omega
  · intro peer hpeer hnone seq hown
    by_contra hgone
    obtain ⟨row, hrow, -⟩ := sound.gone seq hown hgone peer hpeer
    rw [hnone] at hrow
    cases hrow
  · intro peer hpeer
    have hpositive := sound.applied peer
    rw [beyondRetention, decide_eq_false_iff_not, not_lt]
    rcases journalHead_oldest w.state.journal source.site with hzero | ⟨hkept, hleast⟩
    · omega
    · -- Were the oldest entry further on, the one before it would be gone, hence acknowledged.
      by_contra hbeyond
      have hbound := sound.bounded _ hkept
      have hgone : ¬ Retained w.state.journal source.site
          ((journalHead w.state.journal source.site).2 - 1) := by
        intro hearlier
        have := hleast _ hearlier
        omega
      have hown : Own w ((journalHead w.state.journal source.site).2 - 1) := by
        constructor <;> omega
      have := sound.ackedBy_le (sound.gone _ hown hgone peer hpeer)
      omega

/-! ## Every step keeps it -/

/-- A change of the cursor table keeps the invariant if no acknowledgement is lost and none
goes beyond what its peer has applied. -/
theorem cursors_changed (hclock : state.clock = w.state.clock)
    (hjournal : state.journal = w.state.journal)
    (hstays : ∀ peer seq, AckedBy source w.state peer seq → AckedBy source state peer seq)
    (hacked : ∀ peer row, state.cursors.find (peer, source.site) = some row →
      row.durableSeq ≤ w.applied peer) (hrequests : ∀ call request, requests call = some request →
      request.after ≤ w.applied request.peer) :
    Sound source { w with state := state, requests := requests } := by
  constructor
  · intro seq hown hgone peer hpeer
    rw [Own, hclock] at hown
    rw [hjournal] at hgone
    exact hstays peer seq (sound.gone seq hown hgone peer hpeer)
  · exact hacked
  · exact sound.applied
  · intro seq hkept
    rw [hjournal] at hkept
    rw [hclock]
    exact sound.bounded seq hkept
  · exact hrequests
  · exact fun call least hleast peer hpeer =>
      hstays peer least (sound.prunes call least hleast peer hpeer)

theorem other_stream (hclock : state.clock = w.state.clock)
    (hjournal : state.journal = w.state.journal)
    (hsame : ∀ peer, state.cursors.find (peer, source.site) =
      w.state.cursors.find (peer, source.site)) : Sound source { w with state := state } := by
  refine sound.cursors_changed hclock hjournal ?_ ?_ sound.requests
  · rintro peer seq ⟨row, hrow, hle⟩
    exact ⟨row, (hsame peer).trans hrow, hle⟩
  · intro peer row hrow
    exact sound.acked peer row ((hsame peer).symm.trans hrow)

theorem commit (tx : LocalTx) : Sound source { w with state := source.commit tx w.state } := by
  have extended : ∃ entries,
      Extended source.site w.state (source.commit tx w.state) entries := by
    rw [Source.commit]
    split
    · rename_i next entries hran
      have hbody : Extended source.site w.state (tx.body w.state) [] := .none rfl rfl rfl
      exact ⟨_, hbody.trans (appendAll_extended hran)⟩
    · exact ⟨[], .none rfl rfl rfl⟩
  obtain ⟨entries, extended⟩ := extended
  generalize source.commit tx w.state = next at extended ⊢
  have hacked : ∀ {peer seq}, AckedBy source w.state peer seq → AckedBy source next peer seq := by
    rintro peer seq ⟨row, hrow, hle⟩
    exact ⟨row, by rw [extended.cursors]; exact hrow, hle⟩
  constructor
  · intro seq hown hgone peer hpeer
    by_cases hold : seq ≤ w.state.clock.lastSeq
    · exact hacked (sound.gone seq ⟨hown.1, hold⟩ (fun hkept => hgone (extended.stays seq hkept))
        peer hpeer)
    · exact absurd (extended.added seq (by omega) hown.2) hgone
  · intro peer row hrow
    rw [extended.cursors] at hrow
    exact sound.acked peer row hrow
  · exact sound.applied
  · intro seq hkept
    have hcounter := extended.counter
    rcases extended.only seq hkept with hold | ⟨-, hhigh⟩
    · exact (sound.bounded seq hold).trans hcounter
    · exact hhigh
  · exact sound.requests
  · exact fun call least hleast peer hpeer => hacked (sound.prunes call least hleast peer hpeer)

theorem apply (peer : String) (seq : Int) :
    Sound source
      { w with applied := Function.update w.applied peer (max (w.applied peer) seq) } := by
  have hgrows : ∀ other, w.applied other ≤
      Function.update w.applied peer (max (w.applied peer) seq) other := by
    intro other
    rw [Function.update_apply]
    split
    · rename_i hsame
      rw [hsame]
      exact le_max_left _ _
    · exact le_refl _
  exact ⟨sound.gone, fun other row hrow => (sound.acked other row hrow).trans (hgrows other),
    fun other => (sound.applied other).trans (hgrows other), sound.bounded,
    fun call request hcall => (sound.requests call request hcall).trans (hgrows _), sound.prunes⟩

theorem request (call : Nat) {after : Int} (head : Int) (hafter : after ≤ w.applied peer) :
    Sound source
      { w with requests := Function.update w.requests call (some ⟨peer, after, head⟩) } := by
  refine { sound with requests := forall_calls_update sound.requests ?_ }
  rintro _ ⟨rfl⟩
  exact hafter

theorem acknowledged {asked : JournalRequest} (hafter : asked.after ≤ w.applied asked.peer)
    (hrequests : ∀ call request, requests call = some request →
      request.after ≤ w.applied request.peer) :
    Sound source
      { w with state := asked.acknowledged source.site w.state, requests := requests } := by
  have hsame := sound.cursors_changed rfl rfl (fun _ _ hacked => hacked) sound.acked hrequests
  rw [JournalRequest.acknowledged]
  split
  · rw [recordPeerAck]
    split
    · exact hsame
    · refine sound.cursors_changed rfl rfl ?_ ?_ hrequests
      · rintro peer seq ⟨row, hrow, hle⟩
        by_cases hpeer : peer = asked.peer
        · subst hpeer
          refine ⟨{ row with
            appliedSeq := max row.appliedSeq asked.after
            durableSeq := max row.durableSeq asked.after }, ?_, hle.trans (le_max_left _ _)⟩
          rw [Table.find_upsert_self, hrow]
          rfl
        · refine ⟨row, ?_, hle⟩
          rw [Table.find_upsert_of_ne _ _ _ (fun heq => hpeer (congrArg Prod.fst heq))]
          exact hrow
      · intro peer row hrow
        by_cases hpeer : peer = asked.peer
        · subst hpeer
          rw [Table.find_upsert_self] at hrow
          rcases hstored : w.state.cursors.find (asked.peer, source.site) with _ | stored <;>
            rw [hstored] at hrow <;> cases hrow
          · exact hafter
          · exact max_le (sound.acked _ stored hstored) hafter
        · rw [Table.find_upsert_of_ne _ _ _ (fun heq => hpeer (congrArg Prod.fst heq))] at hrow
          exact sound.acked peer row hrow
  · exact hsame

theorem watermark (call : Nat) :
    Sound source { w with
      prunes := Function.update w.prunes call
        (minCursorAcrossPeers w.state source.site source.peers) } := by
  refine { sound with prunes := forall_calls_update sound.prunes ?_ }
  exact fun least hleast peer hpeer => minCursor_le hleast hpeer

end

theorem retained_pruneJournal (hkept : Retained journal origin seq) (hhigh : below ≤ seq) :
    Retained (pruneJournal journal origin below) origin seq := by
  obtain ⟨row, hrow⟩ := Option.isSome_iff_exists.mp hkept
  refine (retained_keep _).mpr ⟨row, hrow, ?_⟩
  have hnot : decide (seq < below) = false := decide_eq_false (by omega)
  simp [hnot]

theorem retained_of_pruneJournal (hkept : Retained (pruneJournal journal origin below) origin seq) :
    Retained journal origin seq := by
  obtain ⟨row, hrow, -⟩ := (retained_keep _).mp hkept
  exact Option.isSome_iff_exists.mpr ⟨row, hrow⟩

/-- `PruneJournal` with a watermark every peer has acknowledged. -/
theorem pruned (sound : Sound source w) {least : Int}
    (hleast : ∀ peer ∈ source.peers, AckedBy source w.state peer least) :
    Sound source { w with
      state := { w.state with
        journal := pruneJournal w.state.journal source.site (least + 1) } } := by
  refine { sound with gone := ?_, bounded := ?_ }
  · intro seq hown hgone peer hpeer
    by_cases hkept : Retained w.state.journal source.site seq
    · have hlow : seq ≤ least := by
        by_contra hhigh
        exact hgone (retained_pruneJournal hkept (by omega))
      obtain ⟨row, hrow, hle⟩ := hleast peer hpeer
      exact ⟨row, hrow, hlow.trans hle⟩
    · exact sound.gone seq hown hkept peer hpeer
  · exact fun seq hkept => sound.bounded seq (retained_of_pruneJournal hkept)

theorem step (sound : Sound source w) (step : AckStep) : Sound source (step.act source w) := by
  cases step with
  | commit tx => exact sound.commit tx
  | apply peer seq => exact sound.apply peer seq
  | request call peer after =>
    rw [AckStep.act]
    split
    · exact sound
    · rename_i hpasses
      rw [not_or, not_lt] at hpasses
      exact sound.request call _ hpasses.1
  | answer call =>
    rw [AckStep.act]
    split
    · exact sound
    · rename_i asked hasked
      exact sound.acknowledged (sound.requests call asked hasked)
        (forall_calls_update sound.requests nofun)
  | watermark call => exact sound.watermark call
  | prune call =>
    rw [AckStep.act]
    split
    · exact sound
    · rename_i least hleast
      have hprunes : ∀ other late, Function.update w.prunes call none other = some late →
          ∀ peer ∈ source.peers, AckedBy source w.state peer late :=
        forall_calls_update sound.prunes nofun
      dsimp only
      split
      · exact { sound.pruned (sound.prunes call least hleast) with prunes := hprunes }
      · exact { sound with prunes := hprunes }
  | pull peer origin cursor | polled peer origin uuid =>
    rw [AckStep.act]
    split
    · exact sound
    · rename_i hother
      exact sound.other_stream rfl rfl fun other =>
        Table.find_upsert_of_ne _ _ _ fun heq => hother (congrArg Prod.snd heq).symm

end Sound

/-! ## Every run -/

/-- A site at its start: it has journaled nothing and no peer has asked. -/
structure Unread (source : Source) (w : Acking) : Prop where
  counter : w.state.clock.lastSeq = 0
  journal : ∀ seq, ¬ Retained w.state.journal source.site seq
  cursors : ∀ peer, w.state.cursors.find (peer, source.site) = none
  applied : ∀ peer, w.applied peer = 0
  requests : ∀ call, w.requests call = none
  prunes : ∀ call, w.prunes call = none

theorem Unread.sound {source : Source} {w : Acking} (unread : Unread source w) :
    Sound source w := by
  constructor
  · rintro seq ⟨hlow, hhigh⟩
    rw [unread.counter] at hhigh
    omega
  · intro peer row hrow
    rw [unread.cursors] at hrow
    cases hrow
  · exact fun peer => (unread.applied peer).ge
  · exact fun seq hkept => absurd hkept (unread.journal seq)
  · intro call request hcall
    rw [unread.requests] at hcall
    cases hcall
  · intro call least hcall
    rw [unread.prunes] at hcall
    cases hcall

/--
In every interleaving of local transactions, journal requests, watermark prunes
and pulls, for any set of configured peers: an entry above the cursor of some
peer is never deleted, a peer that has not acknowledged keeps the whole journal,
and no peer that asks with its cursor is answered 410.
-/
theorem acknowledged_pruning_safe (source : Source) (start : Acking) (unread : Unread source start)
    (steps : List AckStep) :
    PruningSafe source (runAll (AckStep.act source) steps start) := by
  have hstep : ∀ w step, Sound source w → True → Sound source (AckStep.act source step w) :=
    fun w step sound _ => sound.step step
  exact (invariant_runAll hstep unread.sound
    (meets_of_forall (fun _ _ _ => trivial) start)).pruningSafe

def sampleSource : Source where
  site := "east"
  pg := .plain
  peers := ["north", "west"]

def ackedSteps : List AckStep :=
  [.commit (blocking 10 "a@1"), .commit (blocking 20 "b@1"), .commit (blocking 30 "c@1"),
    .apply "north" 2, .request 0 "north" 2, .answer 0, .watermark 0, .prune 0,
    .apply "west" 1, .request 1 "west" 1, .answer 1, .watermark 0, .prune 0]

def unreadSite : Acking where
  state := {}

theorem unreadSite_unread : Unread sampleSource unreadSite :=
  ⟨rfl, fun _ hkept => (nomatch hkept), fun _ => rfl, fun _ => rfl, fun _ => rfl, fun _ => rfl⟩

theorem acknowledged_pruning_safe_sample :
    retainedSeqs (runAll (AckStep.act sampleSource) ackedSteps unreadSite).state.journal "east" =
        [3, 2] ∧
      PruningSafe sampleSource (runAll (AckStep.act sampleSource) ackedSteps unreadSite) :=
  ⟨by decide +kernel,
    acknowledged_pruning_safe sampleSource unreadSite unreadSite_unread ackedSteps⟩

end FondacoFormal.Safety
