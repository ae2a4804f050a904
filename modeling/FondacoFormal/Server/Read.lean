import FondacoFormal.Pipeline.Serve
import FondacoFormal.Server.Publish

/-!
# Reading from a feed

The read chain: access, quarantine, the policies when a coordinate is resolved,
the pipeline, the policies when an artifact is served, and the response.
-/

namespace FondacoFormal.Server

open Library State Pipeline Api Auth Access

/-! ## Feeds and servers -/

/-- `api.Artifact`, as the policies see it when it is served; its checksum is a SHA-256. -/
structure ServedArtifact where
  coord : PackageCoordinate
  size : Nat
  sha256 : String
  metadata : StringMap
  deriving DecidableEq

structure Chain where
  onResolve : Identity → PackageCoordinate → Verdict
  onServe : Identity → ServedArtifact → Verdict

def Chain.empty : Chain where
  onResolve _ _ := ⟨true, ""⟩
  onServe _ _ := ⟨true, ""⟩

/-- `feedRuntime`, as far as reads go. -/
structure ReadFeed where
  feed : Feed
  module : FormatModule
  chain : Chain
  upstream : Option Upstream := none
  hosted : Bool := false
  peerFallback : Bool := false
  redirect : Bool := false
  /-- `AuthChallenge`; empty if there is none. -/
  challenge : String := ""

/-- `Server`, as far as reads go. -/
structure ReadServer where
  env : ReadEnv
  engine : Engine
  database : Bool
  quarantineTTL : Int
  presign : Option (String → Nat → Except Failure String) := none
  /-- `published_at` of a hosted row. -/
  publishedAt : PathKey → Int := fun _ => 0

variable (server : ReadServer)

/-- `capabilityFor`. -/
def capabilityFor (intent : Intent) : Capability :=
  if intent.kind = .search then .list else .read

/-- `mayServe`. -/
def mayServe (e : Engine) (id : Identity) (feed : String) (intent : Intent) : Decision :=
  e.explain (accessIdentity id) (feedPath feed intent.coord.text) (capabilityFor intent)

/-! ## Quarantine -/

/-- `maxQuarantineEntries`. -/
def maxQuarantineEntries : Nat := 8192

/-- The quarantine of one coordinate in a list of rows: the oldest active row. -/
def activeRow (rows : List (QuarantineKey × QuarantineRow)) (coordinate : String) :
    Option (QuarantineKey × QuarantineRow) :=
  -- a table lists the latest write first
  rows.reverse.find? fun row => row.1.2.1 = coordinate && row.2.active

/-- `ActiveQuarantine`. -/
def activeQuarantine (feed coordinate : String) :
    Reading (Option (QuarantineKey × QuarantineRow)) := do
  let _ ← operation server.env
  .reads fun s => activeRow (quarantineOf s.tables feed) coordinate

def quarantineVerdict (expires : Int) : Option (QuarantineKey × QuarantineRow) → QuarantineEntry
  | none => ⟨false, "", expires⟩
  | some (key, row) =>
    ⟨true, if row.detail = "" then key.2.2 else key.2.2 ++ ": " ++ row.detail, expires⟩

def keepEntry (key : PathKey) (entry : QuarantineEntry) : Reading Unit :=
  .update fun s =>
    let kept := if maxQuarantineEntries ≤ s.entries.rows.length then ∅ else s.entries
    { s with entries := kept.put key entry }

def lookupQuarantine (feed coordinate : String) (cached : Option QuarantineEntry) :
    Reading (Bool × String) := do
  match ← (activeQuarantine server feed coordinate).attempt with
  | .error _ => pure ((cached.map fun entry => (entry.blocked, entry.reason)).getD (false, ""))
  | .ok row => do
    let n ← tick
    let entry := quarantineVerdict (server.env.now n + server.quarantineTTL) row
    keepEntry (feed, coordinate) entry
    pure (entry.blocked, entry.reason)

/-- `quarantineCache.Blocked`. -/
def blocked (feed coordinate : String) : Reading (Bool × String) :=
  if !server.database then pure (false, "")
  else do
    let n ← tick
    let cached ← .reads fun s => s.entries.find (feed, coordinate)
    match cached with
    | none => lookupQuarantine server feed coordinate none
    | some entry =>
      if server.env.now n < entry.expires then pure (entry.blocked, entry.reason)
      else lookupQuarantine server feed coordinate (some entry)

/-! ## Answers -/

def ReadFeed.request (fr : ReadFeed) (intent : Intent) : ServeRequest where
  feed := fr.feed
  intent := intent
  module := fr.module
  upstream := fr.upstream
  peerFallback := fr.peerFallback

def maxArtifactMetadata : Nat := 4 * 2 ^ 20

/-- `artifactMetadata`: a failure is no metadata. -/
def artifactMetadata (fr : ReadFeed) (intent : Intent) : Reading StringMap :=
  if intent.kind ≠ .artifact ∨ intent.wantChecksum ≠ "" then pure []
  else
    match fr.module.metadataSource with
    | none => pure []
    | some source =>
      match source.metadataIntent fr.feed intent.coord with
      | none => pure []
      | some metaIntent => do
        match ← (serve server.env (fr.request metaIntent)).attempt with
        | .error _ => pure []
        | .ok result =>
          match source.extractMetadata intent.coord (result.body.take maxArtifactMetadata) with
          | .error _ => pure []
          | .ok canonical => pure canonical

def servedArtifact (intent : Intent) (result : Result) (metadata : StringMap) : ServedArtifact where
  coord := intent.coord
  size := result.size
  sha256 := result.sha256
  metadata := metadata

/-- `w.Header().Set`. -/
def setHeader (headers : List (String × String)) (name value : String) : List (String × String) :=
  headers.filter (fun h => h.1 ≠ name) ++ [(name, value)]

/-- `responseContentType`. -/
def responseContentType (intent : Intent) (recorded : String) : String :=
  if intent.contentType ≠ "" then intent.contentType
  else if recorded ≠ "" then recorded
  else "application/octet-stream"

/-- `setProtocolHeaders`. -/
def setProtocolHeaders (module : FormatModule) (feed : Feed) (intent : Intent) (sha : String)
    (headers : List (String × String)) : List (String × String) :=
  match module.responseHeaders with
  | none => headers
  | some headersFor =>
    ((headersFor feed intent sha).filter fun h => h.2 ≠ "").foldl
      (fun set h => setHeader set h.1 h.2) headers

/-- `streamResult`: the response with the body of a result. -/
def streamResult (site : String) (fr : ReadFeed) (intent : Intent) (result : Result)
    (headers : List (String × String)) : Response where
  status := 200
  headers := setProtocolHeaders fr.module fr.feed intent result.sha256
    (headers ++ [("X-Registry-Source", result.source.text), ("X-Registry-Site", site),
      ("Content-Length", toString result.size),
      ("Content-Type", responseContentType intent result.contentType)])
  body := result.body

def htmlEscape (s : String) : String :=
  String.join (s.toList.map fun c =>
    match c with
    | '&' => "&amp;"
    | '<' => "&lt;"
    | '>' => "&gt;"
    | '\x22' => "&#34;"
    | '\x27' => "&#39;"
    | c => String.singleton c)

/-- `http.Redirect` to a pre-signed location. -/
def redirectTo (site : String) (url : String) (source : Source) (headers : List (String × String)) :
    Response where
  status := 302
  headers := headers ++ [("X-Registry-Source", source.text), ("X-Registry-Site", site),
    ("Content-Type", "text/html; charset=utf-8"), ("Location", url)]
  body := bytesOf ("<a href=\"" ++ htmlEscape url ++ "\">Found</a>.\n\n")

/-- `tryRedirect`; no response means that the body is streamed. -/
def tryRedirect (req : ReadRequest) (fr : ReadFeed) (intent : Intent) (result : Result)
    (headers : List (String × String)) : Reading (Option Response) :=
  if !fr.redirect || result.blobKey = "" || req.method ≠ "GET" then pure none
  else
    match fr.module.redirectSafeIntent, server.presign with
    | some safe, some presign =>
      if !safe intent then pure none
      else do
        let n ← tick
        match presign result.blobKey n with
        | .error _ => pure none
        | .ok url => pure (some (redirectTo server.env.site url result.source headers))
    | _, _ => pure none

/-- `writeSynthetic`. -/
def writeSynthetic (site : String) (answer : SyntheticResponse) : Response where
  status := if answer.status = 0 then 200 else answer.status
  headers := setHeader (setHeader answer.headers "X-Registry-Source" "local") "X-Registry-Site" site
  body := answer.body

/-- `serveSynthetic`. -/
def serveSynthetic (module : FormatModule) (feed : Feed) (intent : Intent) : Response :=
  match module.synthesize with
  | none => writeError server.env.site none ""
  | some synthesize =>
    match synthesize feed intent with
    | .error error => writeErrorText server.env.site error
    | .ok answer => writeSynthetic server.env.site answer

/-! ## Searches -/

/-- A row as `Manifests` lists it. -/
def hostedManifest (publishedAt : PathKey → Int) (row : PathKey × HostedRow) : HostedManifest where
  path := row.1.2
  coord := parseCoordinate row.2.coordinate
  sha256 := row.2.sha256
  size := row.2.size
  checksums := row.2.checksums
  publishedAt := publishedAt row.1

/-- `Manifests` of a feed. -/
def manifests (feed : String) : Reading (List HostedManifest) :=
  if !server.database then
    .fail (.wrapping .unavailable "listing hosted manifests requires a database")
  else do
    let _ ← operation server.env
    .reads fun s => (hostedOf s.tables feed).map (hostedManifest server.publishedAt)

def withContents : List HostedManifest → Reading (List (HostedManifest × Except Failure Bytes))
  | [] => pure []
  | m :: rest => do
    let content ← (getBlob server.env m.sha256).attempt
    let others ← withContents rest
    pure ((m, content) :: others)

/-- `Search` of a module, given what the feed hosts. -/
def searchHosted (search : Feed → Intent → List (HostedManifest × Except Failure Bytes) →
    Except Failure SyntheticResponse) (feed : Feed) (intent : Intent) :
    Reading SyntheticResponse := do
  let rows ← manifests server feed.name
  let contents ← withContents server rows
  .lift (search feed intent contents)

/-! ## The handler -/

/-- What `feedHandler` answers once the policies have let the coordinate through. -/
def answerFeed (fr : ReadFeed) (id : Identity) (req : ReadRequest) (intent : Intent) :
    Reading Response := do
  match ← (serve server.env (fr.request intent)).attempt with
  | .error error => pure (writeError server.env.site error.wraps "")
  | .ok result => do
    let metadata ← artifactMetadata server fr intent
    let verdict := fr.chain.onServe id (servedArtifact intent result metadata)
    if !verdict.allow then
      pure (writeError server.env.site (some .forbidden) verdict.reason)
    else
      match ← tryRedirect server req fr intent result [] with
      | some response => pure response
      | none => pure (streamResult server.env.site fr intent result [])

/-- `serveSearch`, or the pipeline. -/
def answerIntent (fr : ReadFeed) (id : Identity) (req : ReadRequest) (intent : Intent) :
    Reading Response :=
  if intent.kind = .synthetic then pure (serveSynthetic server fr.module fr.feed intent)
  else
    match intent.kind, fr.hosted, fr.upstream, fr.module.search with
    | .search, true, none, some search => do
      match ← (searchHosted server search fr.feed intent).attempt with
      | .error error => pure (writeError server.env.site error.wraps "")
      | .ok answer => pure (writeSynthetic server.env.site answer)
    | _, _, _, _ => answerFeed server fr id req intent

def conflictHeader (coordinate reason : String) (response : Response) : Response :=
  if startsWith "cross_site_conflict" reason then
    { response with headers := ("X-Registry-Conflict", coordinate) :: response.headers }
  else response

/-- `feedHandler` once the caller is identified. -/
def feedHandler (fr : ReadFeed) (id : Identity) (req : ReadRequest) : Reading Response :=
  match fr.module.parse req with
  | .error error => pure (withChallenge fr.challenge (writeErrorText server.env.site error))
  | .ok intent =>
    let decision := mayServe server.engine id fr.feed.name intent
    if !decision.allowed then
      pure (withChallenge fr.challenge (writeAccessError server.env.site id decision))
    else do
      let (isBlocked, reason) ← blocked server fr.feed.name intent.coord.text
      if isBlocked then
        pure (conflictHeader intent.coord.text reason
          (writeError server.env.site (some .quarantined) reason))
      else
        let verdict := fr.chain.onResolve id intent.coord
        if !verdict.allow then
          pure (writeError server.env.site (some .forbidden) verdict.reason)
        else do
          let response ← answerIntent server fr id req intent
          pure (withChallenge fr.challenge response)

end FondacoFormal.Server
