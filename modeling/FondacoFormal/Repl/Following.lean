import FondacoFormal.Repl.Stream

/-!
# Following an origin's journal

One origin and one site that follows it.
-/

namespace FondacoFormal.Repl

open State

/-- The two ends of a stream, the origin's incarnation and its database server. -/
structure Ends where
  origin : String
  puller : String
  distinct : puller ≠ origin
  uuid : String
  pg : Postgres

/-! ## The origin -/

/-- `journalBatch`. -/
def journalBatch : Int := 200

/--
A local transaction of the origin: when it started, what it writes besides the
journal, and the events it journals with the wall reading of each call.
-/
structure LocalTx where
  startedAt : Int
  writes : SiteState → SiteState := id
  events : List (Event × Int)

def appendAll (pg : Postgres) (site : String) (startedAt : Int) :
    List (Event × Int) → SiteState → Except SqlCause (SiteState × List JournalEntry)
  | [], s => .ok (s, [])
  | (event, nowMs) :: rest, s => do
    let (next, e) ← appendJournal pg site event nowMs startedAt s
    let (done, entries) ← appendAll pg site startedAt rest next
    return (done, e :: entries)

/-- The tables before the first journal call: the journal, the cursors and the counter are kept. -/
def LocalTx.body (tx : LocalTx) (s : SiteState) : SiteState :=
  { tx.writes s with
    journal := s.journal
    cursors := s.cursors
    clock := { (tx.writes s).clock with lastSeq := s.clock.lastSeq } }

/-- The transaction: the new tables and the entries it appended; an error rolls back. -/
def LocalTx.run (ends : Ends) (tx : LocalTx) (s : SiteState) : SiteState × List JournalEntry :=
  match appendAll ends.pg ends.origin tx.startedAt tx.events (tx.body s) with
  | .ok result => result
  | .error _ => (s, [])

/-- The acknowledgement part of `pruneJournal`: drop what every peer has read. -/
def pruneAcknowledged (site : String) (peers : List String) (s : SiteState) : SiteState :=
  match minCursorAcrossPeers s site peers with
  | some watermark =>
    if 0 < watermark then { s with journal := pruneJournal s.journal site (watermark + 1) }
    else s
  | none => s

/-- The retention part of `pruneJournal`: drop what is older than the cutoff, of every origin. -/
def pruneExpired (cutoff : Int) (s : SiteState) : SiteState :=
  { s with journal := pruneJournalOlderThan s.journal "" cutoff }

/-- The test of `handleJournal` that answers 410. -/
def beyondRetention (head : Int × Int) (after : Int) : Bool :=
  head.2 > after + 1

/-- A request for entries after `after` acknowledges them, within the journal's head. -/
def acknowledge (ends : Ends) (head : Int × Int) (after : Int) (s : SiteState) : SiteState :=
  if 0 < after ∧ after ≤ head.1 then recordPeerAck s ends.puller ends.origin after else s

/-! ## The follower -/

/-- Where one `catchUp` call stands. -/
inductive CatchUp where
  | idle
  /-- At the top of the loop, with the newest head the origin reported. -/
  | polled (head : Int)
  /-- A page was asked for and `handleJournal` has not read yet. -/
  | requested (head after : Int)
  /-- `handleJournal` has run `JournalHead` and not yet `ReadJournal`. -/
  | headRead (head after : Int) (found : Int × Int)
  /-- `ApplyBatch` has the rest of a page before it. -/
  | applying (head : Int) (page rest : List JournalEntry) (pageHead : Int)
  | resync
  /-- A snapshot was served; `covers` is what the origin had journaled by then. -/
  | restricting (snap : Snapshot) (covers : List JournalEntry)
  /-- The restrictions of the snapshot are in, the manifests are being imported. -/
  | importing (snap : Snapshot) (covers : List JournalEntry) (rest : List ManifestPut)

/--
Both ends and the calls under way.  The last four fields are history: what the
origin ever journaled, which entries were ever in the follower's journal or among
its parked events, and what the snapshots it imported contained.
-/
structure Following where
  origin : SiteState
  puller : SiteState
  calls : Nat → CatchUp := fun _ => .idle
  appended : List JournalEntry := []
  applied : List (String × Int) := []
  parked : List (String × Int) := []
  contained : List JournalEntry := []

namespace Following

def moved (w : Following) (call : Nat) (next : CatchUp) : Following :=
  { w with calls := Function.update w.calls call next }

def checkIdentity (ends : Ends) (s : SiteState) : SiteState :=
  let stored := (getCursor s ends.origin ends.origin).originUuid
  if stored ≠ "" ∧ ends.uuid ≠ "" ∧ stored ≠ ends.uuid then
    setCursor (forgetOriginJournal s ends.origin) ends.origin ends.origin ⟨0, 0, ends.uuid⟩
  else s

/-- The next statement or transaction of one `catchUp` call, or of the request it waits for. -/
def advance (ends : Ends) (call : Nat) (a : Applier) (w : Following) : Following :=
  let applier := { a with site := ends.puller }
  match w.calls call with
  | .idle =>
    { w with puller := markPeerPollOk w.puller ends.origin ends.origin ends.uuid }.moved call
      (.polled (journalHead w.origin.journal ends.origin).1)
  | .polled head =>
    let checked := checkIdentity ends w.puller
    let after := (getCursor checked ends.origin ends.origin).appliedSeq
    { w with puller := checked }.moved call
      (if after ≥ head then .idle else .requested head after)
  | .requested head after =>
    let found := journalHead w.origin.journal ends.origin
    w.moved call (if beyondRetention found after then .resync else .headRead head after found)
  | .headRead head after found =>
    let page := readJournal w.origin.journal ends.origin after journalBatch
    { w with origin := acknowledge ends found after w.origin }.moved call
      (if page.isEmpty then .idle else .applying head page page found.1)
  | .applying head page (e :: rest) pageHead =>
    let outcome := applyBatch applier ends.origin [e] w.puller
    { w with puller := outcome.state }.moved call
      (if outcome.fault = none then .applying head page rest pageHead else .idle)
  | .applying head page [] pageHead =>
    { w with puller := movePast ends.origin ends.uuid page w.puller }.moved call
      (.polled (max head pageHead))
  | .resync =>
    w.moved call (.restricting (handleSnapshot ends.origin ends.uuid w.origin) w.appended)
  | .restricting snap covers =>
    match applySnapshotRestrictions ends.origin snap w.puller with
    | .ok restricted =>
      { w with puller := restricted }.moved call (.importing snap covers snap.manifests)
    | .error _ => w.moved call .idle
  | .importing snap covers (p :: rest) =>
    let outcome := importManifest applier ends.origin snap.site p w.puller
    { w with puller := outcome.state }.moved call
      (if outcome.fault = none then .importing snap covers rest else .idle)
  | .importing snap covers [] =>
    { w with
      puller := adoptWatermark ends.origin snap (advanceClockPastSnapshot snap w.puller)
      contained := w.contained ++ covers }.moved call .idle

/-- What is in the follower's journal and among its parked events enters the history. -/
def record (w : Following) : Following :=
  { w with
    applied := w.applied ++ w.puller.journal.rows.map Prod.fst
    parked := w.parked ++ w.puller.parked.map fun row => row.entry.key }

end Following

inductive FollowStep where
  | commit (tx : LocalTx)
  | pruneAcknowledged (peers : List String)
  | pruneExpired (cutoff : Int)
  | advance (call : Nat) (a : Applier)
  | crash (call : Nat)
  | retryParked (a : Applier) (budget : Nat)
  | expire (cutoff : Int)

def FollowStep.act (ends : Ends) : FollowStep → Following → Following
  | commit tx, w =>
    let (origin, entries) := tx.run ends w.origin
    { w with origin := origin, appended := w.appended ++ entries }
  | pruneAcknowledged peers, w =>
    { w with origin := Repl.pruneAcknowledged ends.origin peers w.origin }
  | pruneExpired cutoff, w => { w with origin := Repl.pruneExpired cutoff w.origin }
  | advance call a, w => w.advance ends call a
  | crash call, w => w.moved call .idle
  | retryParked a budget, w =>
    { w with
      puller :=
        (Repl.retryParked { a with site := ends.puller } ends.origin budget w.puller).state }
  | expire cutoff, w => { w with puller := Repl.pruneExpired cutoff w.puller }

def FollowStep.run (ends : Ends) (step : FollowStep) (w : Following) : Following :=
  (step.act ends w).record

end FondacoFormal.Repl
