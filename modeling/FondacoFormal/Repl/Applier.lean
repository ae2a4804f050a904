import FondacoFormal.Repl.Sql

/-!
# The applier

Merging journal entries into one site's state: the handler of every event
kind, the per-entry transaction with its parking rules, batches, and the retry
of parked events.
-/

namespace FondacoFormal.Repl

open State

/-! ## Texts -/

/-- The first `n` bytes of a string, unless the cut splits a character. -/
def takeBytes : List Char → Nat → Option (List Char)
  | _, 0 => some []
  | [], _ + 1 => some []
  | c :: rest, n + 1 =>
    if c.utf8Size ≤ n + 1 then (takeBytes rest (n + 1 - c.utf8Size)).map (c :: ·) else none

/-- A byte slice `text[:n]` as database text; `none` when it is not valid UTF-8. -/
def cutText (text : String) (n : Nat) : Option String :=
  (takeBytes text.toList n).map String.ofList

/-- `short`: the first twelve bytes of a digest. -/
def short (sha : String) : Option String :=
  if 12 < sha.utf8ByteSize then cutText sha 12 else some sha

/-- `time.Duration.String` of a non-negative whole number of seconds. -/
def durationText (seconds : Int) : String :=
  let h := seconds / 3600
  let m := seconds % 3600 / 60
  let sec := seconds % 60
  if 0 < h then s!"{h}h{m}m{sec}s" else if 0 < m then s!"{m}m{sec}s" else s!"{sec}s"

/-! ## Faults and effects -/

inductive Fault where
  /-- `errPark`, with the text to park under (`none` when it is not valid text). -/
  | park (reason : Option String)
  | sql (context : String) (cause : SqlCause)
  | refused (message : String)
  deriving DecidableEq, Repr

/-- `parkf`, for a message that may not be valid text. -/
def parkf (message : Option String) : Fault :=
  .park (message.map fun text => text ++ ": event parked")

structure ProjectionWrite where
  feed : String
  path : String
  sha256 : String
  size : Int
  checksums : StringMap
  metadata : Metadata
  origin : String
  publisher : String
  deriving DecidableEq, Repr

/-- What a handler leaves behind: the tables, the touched feeds and the queued projections. -/
structure Effect where
  state : SiteState
  touched : List String := []
  pending : List ProjectionWrite := []

structure Outcome where
  state : SiteState
  touched : List String := []
  projected : List ProjectionWrite := []
  fault : Option Fault := none

/-- The answer of `EnsureBlob` for a digest, size and peer. -/
abbrev Fetch := String → Int → String → Except String Unit

/-- The applier of one site, with what it reads from outside at the time of a call. -/
structure Applier where
  site : String
  /-- Nanoseconds; the constructor replaces a non-positive limit by five minutes. -/
  maxSkew : Int
  maxSkew_pos : 0 < maxSkew
  now : Int
  startedAt : Int
  eager : String → Bool
  fetch : Fetch
  pg : Postgres

/-- `HasBlob`. -/
def hasBlob (s : SiteState) (sha : String) : Bool :=
  sha ∈ s.blobs

def storeBlob (sha : String) (s : SiteState) : SiteState :=
  { s with blobs := insert sha s.blobs }

def wrap64 (n : Int) : Int :=
  n.bmod (2 ^ 64)

theorem wrap64_eq {n : Int} (hlow : -2 ^ 63 ≤ n) (hhigh : n < 2 ^ 63) : wrap64 n = n := by
  unfold wrap64 Int.bmod
  dsimp only
  split <;> omega

/-- The skew `applyOne` computes, in nanoseconds, with 64-bit wrap-around. -/
def Applier.skew (a : Applier) (e : JournalEntry) : Int :=
  wrap64 (wrap64 (e.hlc.wall - a.now) * 1000000)

/-- `prefetchBlob`: an eager feed's bytes are fetched before the transaction opens. -/
def prefetchBlob (a : Applier) (peer : String) (e : JournalEntry) (s : SiteState) :
    Except Fault SiteState :=
  match e.event with
  | .manifestPut (.error message) =>
    .error (parkf (some s!"malformed manifest_put payload: {message}"))
  | .manifestPut (.ok p) =>
    if p.sha256 = "" || !a.eager p.feed || hasBlob s p.sha256 then .ok s
    else
      match a.fetch p.sha256 p.size peer with
      | .ok () => .ok (storeBlob p.sha256 s)
      | .error message =>
        .error (parkf ((short p.sha256).map fun d => s!"blob {d} unavailable: {message}"))
  | _ => .ok s

/-! ## Publishes -/

def ManifestPut.side (p : ManifestPut) : SideMeta :=
  ⟨p.sha256, p.size, p.checksums, p.metadata⟩

def HostedRow.side (row : HostedRow) : SideMeta :=
  ⟨row.sha256, row.size, row.checksums, row.metadata⟩

def Resolution.side (r : Resolution) : SideMeta :=
  ⟨r.keepSha, r.size, r.checksums, r.metadata⟩

/-- The projection of a coordinate that now resolves to `side`. -/
def projection (feed path : String) (side : SideMeta) (origin publisher : String) :
    ProjectionWrite :=
  ⟨feed, path, side.sha256, side.size, side.checksums, side.metadata, origin, publisher⟩

def fileRejected (e : JournalEntry) (p : ManifestPut) (decision : Resolution) (s : SiteState) :
    SiteState :=
  if p.sha256 = decision.keepSha then s
  else
    syncConflictQuarantineTx p.feed p.coord
      (recordResolvedConflictTx p (Resolution.side decision) (ManifestPut.side p) e.originSite s)

/-- A publish for a coordinate an operator already resolved converges on the decision. -/
def mergeResolved (pg : Postgres) (e : JournalEntry) (p : ManifestPut) (decision : Resolution)
    (s : SiteState) : Effect :=
  { state := applyResolutionTx pg p.feed p.path p.coord decision e.originSite
      (fileRejected e p decision s)
    touched := [p.feed]
    pending := [projection p.feed p.path (Resolution.side decision) e.originSite p.publisher] }

/-- Rule K1: two byte sequences for one immutable coordinate; the smaller digest is kept. -/
def mergeConflict (e : JournalEntry) (p : ManifestPut) (existing : HostedRow) (s : SiteState) :
    Effect :=
  let incoming := ManifestPut.side p
  let stored := HostedRow.side existing
  let storedWins : Bool := stored.sha256 < incoming.sha256
  let winner := if storedWins then stored else incoming
  let loser := if storedWins then incoming else stored
  let winnerSite := if storedWins then existing.site else e.originSite
  let loserSite := if storedWins then e.originSite else existing.site
  let written := if winner.sha256 = existing.sha256 then s else updateHosted p e s
  { state := syncConflictQuarantineTx p.feed p.coord
      (recordConflictTx p winner loser winnerSite loserSite written)
    touched := [p.feed]
    pending := [projection p.feed p.path winner e.originSite p.publisher] }

def mergeUndecided (e : JournalEntry) (p : ManifestPut) (s : SiteState) : Effect :=
  let served : Effect → Effect := fun effect =>
    { effect with
      touched := [p.feed]
      pending := [projection p.feed p.path (ManifestPut.side p) e.originSite p.publisher] }
  match hostedState s p.feed p.path with
  | none => served ⟨insertHosted p e s, [], []⟩
  | some existing =>
    if p.mutable && existing.mutable then
      if isNewerThanStored s p.feed p.path e.hlc p.sha256 existing.sha256 then
        served ⟨updateHosted p e s, [], []⟩
      else ⟨s, [], []⟩
    else if existing.sha256 = p.sha256 then ⟨s, [], []⟩
    else mergeConflict e p existing s

/-- `applyManifestPut`. -/
def applyManifestPut (a : Applier) (e : JournalEntry) (body : Decoded ManifestPut)
    (s : SiteState) : Except Fault Effect :=
  match body with
  | .error message => .error (parkf (some s!"malformed manifest_put payload: {message}"))
  | .ok p =>
    if p.feed = "" || p.path = "" || p.sha256.utf8ByteSize ≠ 64 then
      .error (parkf (some "incomplete manifest_put payload"))
    else if a.eager p.feed && !hasBlob s p.sha256 then
      .error (parkf ((short p.sha256).map fun d => s!"blob {d} not available locally"))
    else
      match storedResolution s p.feed p.path with
      | some decision => .ok (mergeResolved a.pg e p decision s)
      | none => .ok (mergeUndecided e p s)

/-! ## The other kinds -/

/-- `applyBlobAvailable`: a failed fetch is not an error. -/
def applyBlobAvailable (a : Applier) (peer : String) (body : Decoded BlobAvailable)
    (s : SiteState) : Except Fault Effect :=
  match body with
  | .error message => .error (parkf (some s!"malformed blob_available payload: {message}"))
  | .ok p =>
    if p.sha256 = "" || hasBlob s p.sha256 then .ok { state := s }
    else
      match a.fetch p.sha256 p.size peer with
      | .ok () => .ok { state := storeBlob p.sha256 s }
      | .error _ => .ok { state := s }

/-- The tombstone upsert: unique in the hash, which it arbitrates, and in the name. -/
def revokeToken (hash : String) (s : SiteState) : Except SqlCause SiteState :=
  match cutText hash 16 with
  | none => .error .invalidText
  | some start =>
    let name := "revoked:" ++ start
    match s.tokens.find hash with
    | some row => .ok { s with tokens := s.tokens.put hash { row with revoked := true } }
    | none =>
      if s.tokens.rows.any fun row => row.2.name = name then .error .uniqueViolation
      else .ok { s with tokens := s.tokens.put hash ⟨name, true⟩ }

/-- `applyTokenRevoke`. -/
def applyTokenRevoke (body : Decoded TokenRevoke) (s : SiteState) : Except Fault Effect :=
  match body with
  | .error message => .error (parkf (some s!"malformed token_revoke payload: {message}"))
  | .ok p =>
    if p.hash.utf8ByteSize ≠ 64 then
      .error (parkf (some "token_revoke carries an implausible hash"))
    else
      match revokeToken p.hash s with
      | .error cause => .error (.sql "apply token revoke" cause)
      | .ok next => .ok { state := next }

/-- `applyQuarantineSet`. -/
def applyQuarantineSet (e : JournalEntry) (body : Decoded QuarantineSet) (s : SiteState) :
    Except Fault Effect :=
  match body with
  | .error message => .error (parkf (some s!"malformed quarantine_set payload: {message}"))
  | .ok p =>
    if p.feed = "" || p.coordinate = "" || p.reason = "" then
      .error (parkf (some "incomplete quarantine_set payload"))
    else .ok { state := quarantineTx p.feed p.coordinate p.reason p.detail e.hlc s }

def QuarantineRelease.effectiveReason (p : QuarantineRelease) : String :=
  if p.reason = "" then "manual" else p.reason

/-- `applyQuarantineRelease`. -/
def applyQuarantineRelease (e : JournalEntry) (body : Decoded QuarantineRelease)
    (s : SiteState) : Except Fault Effect :=
  match body with
  | .error message => .error (parkf (some s!"malformed quarantine_release payload: {message}"))
  | .ok p =>
    .ok { state := releaseQuarantineTx p.feed p.coordinate
            (QuarantineRelease.effectiveReason p) e.hlc s }

/-- `isHex`: lowercase hexadecimal. -/
def isHex (text : String) : Bool :=
  text.toList.all fun c => ('0' ≤ c && c ≤ '9') || ('a' ≤ c && c ≤ 'f')

def SideMeta.decision (side : SideMeta) (hlc : HLC) : Resolution :=
  ⟨side.sha256, side.size, side.checksums, side.metadata, hlc⟩

/-- Record a decision made elsewhere, then apply whichever decision is stored. -/
def mergeDecision (pg : Postgres) (e : JournalEntry) (p : ConflictResolve) (decision : Resolution)
    (s : SiteState) : Effect :=
  let recorded := recordResolution p.feed p.path p.coord decision p.operator e.originSite s
  let winning := (storedResolution recorded p.feed p.path).getD decision
  { state := applyResolutionTx pg p.feed p.path p.coord winning e.originSite recorded
    touched := [p.feed]
    pending := [projection p.feed p.path (Resolution.side winning) e.originSite p.operator] }

/-- `applyConflictResolve`. -/
def applyConflictResolve (a : Applier) (e : JournalEntry) (body : Decoded ConflictResolve)
    (s : SiteState) : Except Fault Effect :=
  match body with
  | .error message => .error (parkf (some s!"malformed conflict_resolve payload: {message}"))
  | .ok p =>
    if p.feed = "" || p.path = "" || p.keepSha.utf8ByteSize ≠ 64 || !isHex p.keepSha then
      .error (parkf (some "implausible conflict_resolve payload"))
    else
      match conflictSide a.pg s p.feed p.path p.keepSha with
      | none =>
        .error (parkf ((short p.keepSha).map fun d =>
          s!"no recorded conflict for {p.feed} {p.path} names digest {d}"))
      | some side => .ok (mergeDecision a.pg e p (SideMeta.decision side e.hlc) s)

/-- `dispatch`. -/
def dispatch (a : Applier) (peer : String) (e : JournalEntry) (s : SiteState) :
    Except Fault Effect :=
  match e.event with
  | .manifestPut body => applyManifestPut a e body s
  | .blobAvailable body => applyBlobAvailable a peer body s
  | .tokenRevoke body => applyTokenRevoke body s
  | .quarantineSet body => applyQuarantineSet e body s
  | .quarantineRelease body => applyQuarantineRelease e body s
  | .conflictResolve body => applyConflictResolve a e body s
  | .unknown kind =>
    .error (parkf (some
      s!"unknown event kind {kind.quote} (schema version {e.schemaVersion})"))

/-! ## Transactions -/

/-- `ParkEvent` as the last step of `applyOne`. -/
def park (a : Applier) (e : JournalEntry) (reason : Option String) (s : SiteState) : Outcome :=
  match parkEvent a.pg e reason s with
  | .ok next => { state := next }
  | .error cause => { state := s, fault := some (.sql "park event" cause) }

/-- Commit a handler's effect, unless the transaction exceeds the server's limits. -/
def commit (a : Applier) (e : JournalEntry) (before : SiteState) (effect : Effect)
    (after : SiteState) : Outcome :=
  if a.pg.admits before e then
    { state := after, touched := effect.touched, projected := effect.pending }
  else
    -- The tables roll back; a blob that was fetched meanwhile stays.
    { state := { before with blobs := effect.state.blobs }
      touched := effect.touched
      fault := some (.sql "commit applied event" .limitExceeded) }

/-- Which of the two statements of `ApplyForeignJournal` failed. -/
def foreignJournalFault (cause : SqlCause) : Fault :=
  .sql (if cause = .numericOutOfRange then "advance hlc" else "store foreign journal entry") cause

/-- The transaction of `applyOne`, opened after the blob was fetched. -/
def applyFetched (a : Applier) (peer : String) (e : JournalEntry) (s : SiteState) : Outcome :=
  match applyForeignJournal a.pg a.startedAt e s with
  | .error cause => { state := s, fault := some (foreignJournalFault cause) }
  | .ok (recorded, fresh) =>
    if fresh then
      match dispatch a peer e recorded with
      | .ok effect => commit a e s effect effect.state
      | .error (.park reason) => park a e reason s
      | .error fault => { state := s, fault := some fault }
    else { state := recorded }

/-- `applyOne`. -/
def applyOne (a : Applier) (peer : String) (e : JournalEntry) (s : SiteState) : Outcome :=
  if a.maxSkew < a.skew e then
    park a e (some ("clock skew " ++ durationText (a.skew e / 1000000000))) s
  else
    match prefetchBlob a peer e s with
    | .ok fetched => applyFetched a peer e fetched
    | .error (.park reason) => park a e reason s
    | .error fault => { state := s, fault := some fault }

/-- Run the rest of a batch after a call, keeping what the call touched and projected. -/
def Outcome.andThen (first : Outcome) (next : SiteState → Outcome) : Outcome :=
  match first.fault with
  | some _ => first
  | none =>
    let second := next first.state
    { second with
      touched := first.touched ++ second.touched
      projected := first.projected ++ second.projected }

/-- `ApplyBatch`. -/
def applyBatch (a : Applier) (peer : String) : List JournalEntry → SiteState → Outcome
  | [], s => { state := s }
  | e :: rest, s =>
    if e.originSite = a.site then applyBatch a peer rest s
    else if e.originSite = peer then
      (applyOne a peer e s).andThen (applyBatch a peer rest)
    else
      { state := s
        fault := some (.refused
          (s!"peer {peer} served an entry attributed to {e.originSite}: " ++
            "only a site's own journal is accepted")) }

/-- `RetryParked` commits the transaction and takes the event out of the parked ones in a statement
of its own; here both are one step. -/
def retryFetched (a : Applier) (peer : String) (e : JournalEntry) (s : SiteState) : Outcome :=
  match applyForeignJournal a.pg a.startedAt e s with
  | .error cause => { state := s, fault := some (foreignJournalFault cause) }
  | .ok (recorded, _) =>
    match dispatch a peer e recorded with
    | .ok effect => commit a e s effect (unparkEvent effect.state e.key)
    | .error (.park _) => { state := s }
    | .error fault => { state := s, fault := some fault }

/-- One iteration of the retry loop: an event that parks again is left alone. -/
def retryOne (a : Applier) (peer : String) (e : JournalEntry) (s : SiteState) : Outcome :=
  match prefetchBlob a peer e s with
  | .ok fetched => retryFetched a peer e fetched
  | .error _ => { state := s }

def retryAll (a : Applier) (peer : String) : List JournalEntry → SiteState → Outcome
  | [], s => { state := s }
  | e :: rest, s => (retryOne a peer e s).andThen (retryAll a peer rest)

/-- `RetryParked`; the time budget lets it attempt the first `budget` events it read. -/
def retryParked (a : Applier) (peer : String) (budget : Nat) (s : SiteState) : Outcome :=
  retryAll a peer (((parkedEvents s peer 100).map ParkedRow.entry).take budget) s

end FondacoFormal.Repl
