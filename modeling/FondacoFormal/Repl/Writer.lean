import FondacoFormal.Repl.Applier

/-!
# Local writes

What a site does on its own account: publishing with the journal entries that
announce it, operators' quarantine decisions, and resolving a conflict.  Each is
one transaction; an error leaves the tables as they were.
-/

namespace FondacoFormal.Repl

open State

/-- `api.PublishRequest`; a missing metadata map differs from an empty one. -/
structure PublishRequest where
  feed : String
  path : String
  coord : String
  sha256 : String
  size : Int
  checksums : StringMap
  metadata : Option Metadata
  mutable : Bool
  identity : String
  deriving DecidableEq, Repr

/-- The wall readings of one transaction's clock calls, and the transaction's start. -/
structure TxClock where
  stampMs : Int
  firstMs : Int
  secondMs : Int
  startedAt : Int
  deriving DecidableEq, Repr

def publishedRow (site : String) (req : PublishRequest) (h : HLC) : HostedRow where
  coordinate := req.coord
  sha256 := req.sha256
  size := req.size
  checksums := req.checksums
  metadata := (req.metadata.getD {}).stamp h
  mutable := req.mutable
  origin := "publish"
  site := site
  publishedBy := req.identity

def HostedRow.republish (row : HostedRow) (site : String) (req : PublishRequest) (h : HLC) :
    HostedRow :=
  { row with
    sha256 := req.sha256
    size := req.size
    checksums := req.checksums
    metadata := (req.metadata.getD {}).stamp h
    publishedBy := req.identity
    site := site }

def writeHosted (key : PathKey) (row : HostedRow) (s : SiteState) : SiteState :=
  { s with hosted := s.hosted.put key row }

/-- `InsertHostedTx`: whether a row was written, and the stamp it carries. -/
def insertHostedTx (site : String) (req : PublishRequest) (nowMs : Int) (s : SiteState) :
    Except Fault (SiteState × HLC × Bool) :=
  match replHlcNow nowMs s.clock with
  | .error cause => .error (.sql "stamp hybrid logical clock" cause)
  | .ok (clock, h) =>
    let stamped := { s with clock := clock }
    let key := (req.feed, req.path)
    match s.hosted.find key with
    | none =>
      .ok (writeHosted key (publishedRow site req h) stamped, h, true)
    | some existing =>
      if existing.sha256 = req.sha256 then .ok (stamped, h, false)
      else if !existing.mutable || !req.mutable then
        .error (.refused s!"{req.feed} {req.path}: coordinate already published")
      else
        .ok (writeHosted key (HostedRow.republish existing site req h) stamped, h, true)

/-- The announced payload; the stamp was written into the request's map if it has one. -/
def PublishRequest.payload (req : PublishRequest) (h : HLC) : ManifestPut where
  feed := req.feed
  path := req.path
  coord := req.coord
  sha256 := req.sha256
  size := req.size
  checksums := req.checksums
  metadata := (req.metadata.map fun m => m.stamp h).getD {}
  mutable := req.mutable
  publisher := req.identity

/-- `AppendManifestPut`: announce the coordinate, then its bytes. -/
def appendManifestPut (pg : Postgres) (site : String) (req : PublishRequest) (h : HLC)
    (clock : TxClock) (s : SiteState) : Except SqlCause (SiteState × JournalEntry) := do
  let (announced, entry) ← appendJournal pg site (.manifestPut (.ok (req.payload h)))
    clock.firstMs clock.startedAt s
  let (done, _) ← appendJournal pg site (.blobAvailable (.ok ⟨req.sha256, req.size⟩))
    clock.secondMs clock.startedAt announced
  return (done, entry)

/-- A local publish: the new state, and the announcement if a row was written. -/
structure Published where
  state : SiteState
  stamp : HLC
  entry : Option JournalEntry

/-- `insertWithJournal`. -/
def insertWithJournal (pg : Postgres) (site : String) (req : PublishRequest) (clock : TxClock)
    (s : SiteState) : Except Fault Published :=
  match insertHostedTx site req clock.stampMs s with
  | .error fault => .error fault
  | .ok (inserted, h, false) => .ok ⟨inserted, h, none⟩
  | .ok (inserted, h, true) =>
    match appendManifestPut pg site req h clock inserted with
    | .error cause => .error (.sql "append journal entry" cause)
    | .ok (announced, entry) => .ok ⟨announced, h, some entry⟩

/-- An operator's resolution: the new state, the local stamp and the announcement. -/
structure Resolved where
  state : SiteState
  stamp : HLC
  entry : JournalEntry

/-- `ResolveConflict`. -/
def resolveConflict (pg : Postgres) (site feed path coord keepSha operator : String)
    (clock : TxClock) (s : SiteState) : Except Fault Resolved :=
  if keepSha.utf8ByteSize ≠ 64 || !isHex keepSha then
    .error (.refused s!"keep digest {keepSha.quote} is not a sha256 hex digest")
  else
    match conflictSide pg s feed path keepSha with
    | none =>
      .error (.refused (s!"digest {(short keepSha).getD keepSha} is not one of the recorded " ++
        s!"sides of the conflict for {feed} {path}"))
    | some side =>
      match replHlcNow clock.stampMs s.clock with
      | .error cause => .error (.sql "stamp resolution" cause)
      | .ok (row, h) =>
        let decision := SideMeta.decision side h
        let decided := applyResolutionTx pg feed path coord decision site
          (recordResolution feed path coord decision operator site { s with clock := row })
        let event := Event.conflictResolve (.ok ⟨feed, path, coord, keepSha, operator⟩)
        match appendJournal pg site event clock.firstMs clock.startedAt decided with
        | .error cause => .error (.sql "append journal entry conflict_resolve" cause)
        | .ok (announced, entry) => .ok ⟨announced, h, entry⟩

def quarantineEvent (feed coordinate reason detail : String) (active : Bool) : Event :=
  if active then .quarantineSet (.ok ⟨feed, coordinate, reason, detail⟩)
  else .quarantineRelease (.ok ⟨feed, coordinate, reason⟩)

/--
`handleQuarantine`: an operator blocks or releases a coordinate.  The journal
entry comes first and its stamp orders the local write; a site that does not
replicate only stamps.
-/
def handleQuarantine (pg : Postgres) (site : String) (replicating : Bool)
    (feed coordinate reason detail : String) (active : Bool) (clock : TxClock) (s : SiteState) :
    Except Fault SiteState :=
  let named := if reason = "" then "manual" else reason
  if feed = "" || coordinate = "" then
    .error (.refused "feed and coordinate are required")
  else if named = crossSiteConflict then
    .error (.refused
      "a conflict block is derived from recorded conflicts; resolve the conflict instead")
  else if replicating then
    match appendJournal pg site (quarantineEvent feed coordinate named detail active)
        clock.firstMs clock.startedAt s with
    | .error cause => .error (.sql "append journal entry" cause)
    | .ok (announced, entry) =>
      .ok (applyQuarantineDecisionTx feed coordinate named detail active entry.hlc announced)
  else
    match replHlcNow clock.stampMs s.clock with
    | .error cause => .error (.sql "stamp decision" cause)
    | .ok (row, h) =>
      .ok (applyQuarantineDecisionTx feed coordinate named detail active h
        { s with clock := row })

end FondacoFormal.Repl
