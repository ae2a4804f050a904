import FondacoFormal.Api.Intent
import FondacoFormal.Library.Program
import FondacoFormal.Repl.Transfer

/-!
# Serving an intent

The read pipeline: artifacts from the store, from a peer or from the upstream, and documents
under a time to live that are served stale when the upstream is down.
-/

namespace FondacoFormal.Pipeline

open Library State Server Api

/-! ## The stores of a site -/

structure Document where
  content : Bytes
  modTime : Int
  sha256 : String := ""
  contentType : String := ""
  deriving DecidableEq

/-- `quarantineEntry`. -/
structure QuarantineEntry where
  blocked : Bool
  reason : String
  expires : Int
  deriving DecidableEq

structure ReadStore where
  /-- By feed and path, what `loadManifest` makes of the object. -/
  manifests : Table PathKey (Except Failure Manifest) := ∅
  documents : Table PathKey Document := ∅
  blobs : Table String Bytes := ∅
  missing : Table PathKey Int := ∅
  tables : SiteState := {}
  /-- `quarantineCache.entries`, by feed and coordinate. -/
  entries : Table PathKey QuarantineEntry := ∅
  ticks : Nat := 0

def hostedOf (t : SiteState) (feed : String) : List (PathKey × HostedRow) :=
  t.hosted.rows.filter fun row => row.1.1 = feed

def quarantineOf (t : SiteState) (feed : String) : List (QuarantineKey × QuarantineRow) :=
  t.quarantine.rows.filter fun row => row.1.1 = feed

abbrev Reading : Type → Type := Program ReadStore Failure

/-! ## What is outside the site -/

/-- What `Fetch` and `FetchURL` are asked for. -/
inductive FetchTarget where
  | path (path query accept : String)
  | url (url accept : String)
  deriving DecidableEq, Repr

structure UpstreamResponse where
  status : Nat := 200
  headers : List (String × String) := []
  body : Except Failure Bytes

/-- `Header.Get`. -/
def header (headers : List (String × String)) (name : String) : String :=
  ((headers.find? fun h => h.1 = name).map (·.2)).getD ""

/-- `Upstream`. -/
structure Upstream where
  feed : String
  fetch : FetchTarget → Nat → Except Failure UpstreamResponse
  resolveReference : String → String → Except Failure String

/-- `Client`: a lookup of a row and a transfer of a blob. -/
structure PeerClient where
  name : String := ""
  manifest : String → String → Nat → Except Failure (String × Int)
  /-- How the peer answers the requests of a transfer. -/
  blob : Nat → Repl.Transfer.Peer

structure ReadEnv where
  site : String
  digest : String → Bytes → String
  now : Nat → Int
  /-- The operations of the store and the database that fail. -/
  fault : Nat → Option Failure
  /-- The clients of the `PeerSource`, if there is one. -/
  peers : Option (List PeerClient) := none
  missTTL : Int := 0
  depth : Nat := 2

/-- `pipeline.Request`. -/
structure ServeRequest where
  feed : Feed
  intent : Intent
  module : FormatModule
  upstream : Option Upstream := none
  peerFallback : Bool := false

/-- `pipeline.Result`, the time of modification apart: no response carries it.  The stores
know the size of everything they hold. -/
structure Result where
  body : Bytes
  size : Nat
  sha256 : String := ""
  source : Source
  blobKey : String := ""
  contentType : String := ""
  deriving DecidableEq

variable (env : ReadEnv)

def tick : Reading Nat :=
  fun s => ({ s with ticks := s.ticks + 1 }, .ok s.ticks)

variable {s : ReadStore}

theorem bind_tick {α : Type} {f : Nat → Reading α} :
    (tick >>= f) s = f s.ticks { s with ticks := s.ticks + 1 } := rfl

def operation : Reading Nat := do
  let n ← tick
  match env.fault n with
  | some error => .fail error
  | none => pure n

def inContext {α : Type} (context : String) (x : Reading α) : Reading α := do
  match ← x.attempt with
  | .ok a => pure a
  | .error error => .fail (.within context error)

/-- `m[key]`. -/
def lookup (m : StringMap) (key : String) : String :=
  ((m.find? fun entry => entry.1 = key).map (·.2)).getD ""

/-- `readAllCapped`. -/
def readAllCapped (limit : Nat) (body : Bytes) : Except Failure Bytes :=
  if limit < body.length then .error ⟨none, "body exceeds " ++ toString limit ++ " bytes cap"⟩
  else .ok body

/-- `metadataSizeCap`. -/
def metadataSizeCap : Nat := 128 * 2 ^ 20

/-! ## The store -/

/-- `loadManifest`. -/
def loadManifest (feed path : String) : Reading Manifest := do
  let _ ← operation env
  match ← .reads fun s => s.manifests.find (feed, path) with
  | none => .fail (.wrapping .notFound ("blob manifests/" ++ feed ++ "/" ++ path))
  | some loaded => .lift loaded

/-- `store.Get` of a blob; `Stat` fails alike. -/
def getBlob (sha : String) : Reading Bytes := do
  let _ ← operation env
  match ← .reads fun s => s.blobs.find sha with
  | none => .fail (.wrapping .notFound ("blob " ++ Storage.blobKey sha))
  | some content => pure content

/-- `store.Put` of content under its digest. -/
def putBlob (sha : String) (content : Bytes) : Reading Unit := do
  let _ ← operation env
  .update fun s => { s with blobs := s.blobs.put sha content }

/-- `store.Get` of a document; `Stat` fails alike. -/
def getDocument (key : PathKey) : Reading Document := do
  let _ ← operation env
  match ← .reads fun s => s.documents.find key with
  | none => .fail (.wrapping .notFound ("blob meta/" ++ key.1 ++ "/" ++ key.2))
  | some document => pure document

variable {feed path : String} {m : Manifest}

section Calm

variable {env} {s : ReadStore} (hcalm : env.fault s.ticks = none)

include hcalm

theorem operation_run : operation env s = ({ s with ticks := s.ticks + 1 }, .ok s.ticks) := by
  refine (Program.bind_of_ok
    (rfl : tick s = ({ s with ticks := s.ticks + 1 }, .ok s.ticks))).trans ?_
  rw [hcalm]
  rfl

theorem loadManifest_found (hfind : s.manifests.find (feed, path) = some (.ok m)) :
    loadManifest env feed path s = ({ s with ticks := s.ticks + 1 }, .ok m) := by
  simp only [loadManifest, Program.bind_apply, operation_run hcalm, Program.reads, hfind]
  rfl

theorem loadManifest_absent (hfind : s.manifests.find (feed, path) = none) :
    loadManifest env feed path s = ({ s with ticks := s.ticks + 1 },
      .error (.wrapping .notFound ("blob manifests/" ++ feed ++ "/" ++ path))) := by
  simp only [loadManifest, Program.bind_apply, operation_run hcalm, Program.reads, hfind]
  rfl

theorem getBlob_found {sha : String} {content : Bytes} (hfind : s.blobs.find sha = some content) :
    getBlob env sha s = ({ s with ticks := s.ticks + 1 }, .ok content) := by
  simp only [getBlob, Program.bind_apply, operation_run hcalm, Program.reads, hfind]
  rfl

end Calm

/-- `metaKey`. -/
def metaKey (feed : Feed) (intent : Intent) : PathKey :=
  if intent.remoteQuery = "" then (feed.name, intent.remotePath)
  else
    let sum := env.digest "sha256" (Text.encode intent.remoteQuery.toList)
    (feed.name, intent.remotePath ++ "@" ++ String.ofList (sum.toList.take 16))

/-! ## Results -/

/-- `hasherFor`. -/
def hasherFor (algo : String) : Option (Bytes → String) :=
  if ["sha1", "md5", "sha256", "sha512"].contains algo then some (env.digest algo) else none

/-- `openBlob`: the length of the blob is the one that counts. -/
def openBlob (m : Manifest) (source : Source) : Reading Result := do
  let content ← inContext ("manifest points to missing blob " ++ m.sha256) (getBlob env m.sha256)
  pure
    { body := content
      size := content.length
      sha256 := m.sha256
      source := source
      blobKey := Storage.blobKey m.sha256
      contentType := lookup m.metadata.rest "content_type" }

/-- `manifestDigest`. -/
def manifestDigest (m : Manifest) (algo : String) : Reading String :=
  if algo = "sha256" ∧ m.sha256 ≠ "" then pure m.sha256
  else if lookup m.checksums algo ≠ "" then pure (lookup m.checksums algo)
  else
    match hasherFor env algo with
    | none => .fail (.wrapping .notFound ("unsupported checksum algorithm " ++ algo.quote))
    | some hasher => do
      let content ← inContext ("rehash blob " ++ m.sha256) (getBlob env m.sha256)
      pure (hasher content)

/-- `textResult`. -/
def textResult (text : String) (source : Source) : Result where
  body := Text.encode text.toList
  size := (Text.encode text.toList).length
  source := source

/-- `artifactResult`. -/
def artifactResult (intent : Intent) (m : Manifest) (source : Source) : Reading Result :=
  if intent.wantChecksum = "" then openBlob env m source
  else do
    let digest ← manifestDigest env m intent.wantChecksum
    pure (textResult digest source)

/-- `openMeta`. -/
def openMeta (key : PathKey) (source : Source) : Reading Result := do
  let document ← getDocument env key
  pure
    { body := document.content
      size := document.content.length
      sha256 := document.sha256
      source := source
      contentType := document.contentType }

/-! ## Peers -/

/-- `short`, of a digest. -/
def short (digest : String) : String :=
  String.ofList (digest.toList.take 12)

/-- The error of a transfer. -/
def transferFailure (name digest : String) (size : Int) : Repl.Transfer.TransferFault → Failure
  | .tooMuch => ⟨none, "peer " ++ name ++ " sent more than the declared " ++ toString size ++
      " bytes for blob " ++ short digest⟩
  | .unreachable => ⟨none, "peer " ++ name ++ " blob transfer"⟩
  | .notFound => .wrapping .notFound ("peer " ++ name ++ " does not have blob " ++ short digest)
  | .noResume => ⟨none, "peer " ++ name ++ " does not support resume for blob " ++ short digest⟩
  | .resume code => ⟨none, "peer " ++ name ++ " resume returned " ++ toString code⟩
  | .status code => ⟨none, "peer " ++ name ++ " blob fetch returned " ++ toString code⟩
  | .read => ⟨none, "read peer blob"⟩
  | .exceeded => ⟨none, "peer " ++ name ++ " exceeded the declared size for blob " ++ short digest⟩
  | .checksumMismatch got => .wrapping .checksumMismatch ("peer " ++ name ++ " served blob " ++
      short digest ++ " but the bytes hash to " ++ short got)
  | .size written => ⟨none, "peer " ++ name ++ " served " ++ toString written ++
      " bytes for blob " ++ short digest ++ ", expected " ++ toString size⟩

/-- `FetchBlob` into the store of the site. -/
def fetchBlob (client : PeerClient) (sha : String) (size : Int) : Reading Unit := do
  let n ← tick
  let fetched := Repl.Transfer.fetchBlob (env.digest "sha256") (client.blob n) sha size
  match fetched.error with
  | some fault => .fail (transferFailure client.name sha size fault)
  | none => inContext "store peer blob" (putBlob env sha fetched.spool.bytes)

/-- The clients in order, until one delivers; `last` is the latest error. -/
def fetchFromAny (sha : String) (size : Int) : List PeerClient → Failure → Reading Unit
  | [], last => .fail last
  | client :: rest, _ => do
    match ← (fetchBlob env client sha size).attempt with
    | .ok () => pure ()
    | .error error => fetchFromAny sha size rest error

/-- `EnsureBlob`. -/
def ensureBlob (clients : List PeerClient) (sha : String) (size : Int) : Reading Unit := do
  match ← (getBlob env sha).attempt with
  | .ok _ => pure ()
  | .error _ => fetchFromAny env sha size clients (.wrapping .notFound ("no peer has blob " ++ sha))

/-- `Client.Manifest`. -/
def clientManifest (client : PeerClient) (feed path : String) : Reading (String × Int) := do
  let n ← tick
  let found ← .lift (client.manifest feed path n)
  if found.1.utf8ByteSize ≠ 64 then .fail ⟨none, "peer returned an implausible digest"⟩
  else pure found

/-- `noteMissing`: the map is a cache, emptied past 4096 entries. -/
def noteMissing (key : PathKey) : Reading Unit := do
  let n ← tick
  .update fun s =>
    let kept := if 4096 < s.missing.rows.length then ∅ else s.missing
    { s with missing := kept.put key (env.now n + env.missTTL) }

/-- The clients in order, until one has the row; `last` is the latest error. -/
def manifestFromAny (feed path : String) : List PeerClient → Failure → Reading (String × Int)
  | [], last => do
    noteMissing env (feed, path)
    .fail last
  | client :: rest, _ => do
    match ← (clientManifest client feed path).attempt with
    | .ok found => pure found
    | .error error => manifestFromAny feed path rest error

/-- `recentlyMissing`: an entry past its time is deleted. -/
def recentlyMissing (key : PathKey) : Reading Bool := do
  let n ← tick
  match ← .reads fun s => s.missing.find key with
  | none => pure false
  | some expiry =>
    if expiry < env.now n then do
      .update fun s => { s with missing := s.missing.erase key }
      pure false
    else pure true

/-- `FetchManifest`. -/
def fetchManifest (clients : List PeerClient) (feed path : String) : Reading (String × Int) := do
  if ← recentlyMissing env (feed, path) then .fail ⟨some .notFound, "not found"⟩
  else manifestFromAny env feed path clients ⟨some .notFound, "not found"⟩

/-- The row of a peer, as `fromPeer` makes a manifest of it. -/
def peerManifest (sha : String) (size : Int) (now : Int) : Manifest where
  sha256 := sha
  size := size
  checksums := []
  ingestedAt := now
  origin := "peer"
  site := ""
  publisher := ""
  metadata := {}

/-- `fromPeer`. -/
def fromPeer (req : ServeRequest) : Reading Result :=
  match req.peerFallback, env.peers with
  | true, some clients => do
    let (sha, size) ← fetchManifest env clients req.feed.name req.intent.remotePath
    ensureBlob env clients sha size
    let n ← tick
    artifactResult env req.intent (peerManifest sha size (env.now n)) .peer
  | _, _ => .fail ⟨some .notFound, "not found"⟩

/-- `fromPeerBlob`. -/
def fromPeerBlob (req : ServeRequest) (m : Manifest) : Reading Result :=
  match req.peerFallback, env.peers with
  | true, some clients => do
    ensureBlob env clients m.sha256 m.size
    artifactResult env req.intent m .peer
  | _, _ => .fail ⟨some .notFound, "not found"⟩

/-! ## The upstream -/

/-- `Fetch` or `FetchURL`. -/
def fetch (up : Upstream) (target : FetchTarget) : Reading UpstreamResponse := do
  let n ← tick
  .lift (up.fetch target n)

/-- `FetchAll`: the body and its declared media type. -/
def fetchAll (up : Upstream) (target : FetchTarget) : Reading (Bytes × String) := do
  let response ← fetch up target
  let body ← inContext ("upstream " ++ up.feed ++ ": read body")
    (.lift (response.body.bind (readAllCapped metadataSizeCap)))
  pure (body, header response.headers "Content-Type")

def checksumHexLen : List (String × Nat) :=
  [("md5", 32), ("sha1", 40), ("sha256", 64), ("sha512", 128)]

/-- `parseChecksumBody`. -/
def parseChecksumBody (algo : String) (body : Bytes) : Except String String :=
  match Text.fields (String.ofList (Text.decode body)) with
  | [] => .error "empty checksum document"
  | first :: _ =>
    let digest := Text.lower first
    match checksumHexLen.find? fun entry => entry.1 = algo with
    | none => .error ("unsupported checksum algorithm " ++ algo.quote)
    | some (_, want) =>
      if digest.utf8ByteSize ≠ want then
        .error ("digest " ++ digest.quote ++ " has length " ++ toString digest.utf8ByteSize ++
          ", want " ++ toString want ++ " for " ++ algo)
      else if digest.toList.all fun c => c.isDigit || ('a' ≤ c && c ≤ 'f') then .ok digest
      else .error ("digest " ++ digest.quote ++ " is not hex")

/-- `fetchRemoteChecksum`: no document is no checksum, any other failure ends the ingest. -/
def fetchRemoteChecksum (up : Upstream) (source : ChecksumSource) : Reading Checksum := do
  match ← (fetchAll up (.path source.path "" "")).attempt with
  | .ok (body, _) =>
    match parseChecksumBody source.algo body with
    | .ok hex => pure ⟨source.algo, hex⟩
    | .error problem =>
      .fail (.wrapping .checksumMismatch
        ("checksum document " ++ source.path ++ ": " ++ problem))
  | .error error =>
    if error.wraps = some .notFound then pure {}
    else .fail (.within ("fetch checksum document " ++ source.path) error)

def checksumOf (canonical : StringMap) : Checksum :=
  match Text.cut (lookup canonical "checksum") ':' with
  | none => {}
  | some (algo, hex) => ⟨Text.lower algo, Text.lower hex⟩

/-- `metadataChecksum`; `nested` is `Serve` for the metadata document. -/
def metadataChecksum (nested : ServeRequest → Reading Result) (req : ServeRequest) :
    Reading Checksum :=
  match req.module.metadataSource with
  | none => pure {}
  | some source =>
    match source.metadataIntent req.feed req.intent.coord with
    | none => pure {}
    | some metaIntent =>
      if metaIntent.remotePath = req.intent.remotePath then pure {}
      else do
        match ← (nested { req with intent := metaIntent }).attempt with
        | .error _ => pure {}
        | .ok result =>
          match readAllCapped metadataSizeCap result.body with
          | .error _ => pure {}
          | .ok body =>
            match source.extractMetadata req.intent.coord body with
            | .error _ => pure {}
            | .ok canonical => pure (checksumOf canonical)

/-- `openArtifactStream`, with the checksum that an indirection published. -/
def openArtifactStream (req : ServeRequest) (up : Upstream) :
    Reading (UpstreamResponse × Checksum) :=
  if req.intent.remoteURL ≠ "" then do
    let response ← fetch up (.url req.intent.remoteURL req.intent.accept)
    pure (response, {})
  else do
    let response ← fetch up (.path req.intent.remotePath "" req.intent.accept)
    if !req.intent.indirect then pure (response, {})
    else
      match req.module.resolveIndirect with
      | none =>
        .fail ⟨none, "intent for " ++ req.intent.coord.text ++ " is indirect but module " ++
          req.module.name.quote ++ " lacks IndirectResolver"⟩
      | some resolve => do
        let body ← inContext "read indirection response"
          (.lift (response.body.bind (readAllCapped (2 ^ 20))))
        let target ← inContext ("resolve indirect location for " ++ req.intent.coord.text)
          (.lift (resolve req.feed req.intent response.status response.headers body))
        let url ← .lift (up.resolveReference req.intent.remotePath target.location)
        let stream ← fetch up (.url url "")
        pure (stream, target.checksum)

/-! ## Ingest -/

def digests (content : Bytes) : StringMap :=
  ["md5", "sha1", "sha256", "sha512"].map fun algo => (algo, env.digest algo content)

/-- `verifyChecksum`. -/
def verifyChecksum (want : Checksum) (computed : StringMap) : Except Failure Unit :=
  if want.isZero then .ok ()
  else
    match computed.find? fun entry => entry.1 = Text.lower want.algo with
    | none =>
      .error (.wrapping .checksumMismatch ("unsupported checksum algo " ++ want.algo.quote))
    | some (_, got) =>
      if Storage.equalFold got want.hex then .ok ()
      else .error (.wrapping .checksumMismatch (want.algo ++ " digest " ++ got ++
        " does not match expected " ++ want.hex))

/-- `ingestMetadata`. -/
def ingestMetadata (intent : Intent) (response : UpstreamResponse) : StringMap :=
  let declared := Text.trimSpace (header response.headers "Content-Type")
  if intent.contentType ≠ "" ∨ declared = "" ∨ declared = "application/octet-stream" then []
  else [("content_type", declared)]

def storeBlob (sha : String) (content : Bytes) : Reading Unit := do
  match ← (getBlob env sha).attempt with
  | .ok _ => pure ()
  | .error error =>
    if error.wraps = some .notFound then inContext "store blob" (putBlob env sha content)
    else .fail (.within "stat blob" error)

def ingestedManifest (req : ServeRequest) (response : UpstreamResponse)
    (content : Bytes) (now : Int) :
    Manifest where
  sha256 := env.digest "sha256" content
  size := content.length
  checksums := digests env content
  ingestedAt := now
  origin := "proxy"
  site := env.site
  publisher := ""
  metadata := { rest := ingestMetadata req.intent response }

def publishedChecksum (req : ServeRequest) (up : Upstream) : Reading Checksum :=
  if req.intent.checksum.isZero && !req.intent.remoteChecksum.isZero then
    fetchRemoteChecksum up req.intent.remoteChecksum
  else pure req.intent.checksum

def expectedChecksum (nested : ServeRequest → Reading Result) (req : ServeRequest) (up : Upstream) :
    Reading Checksum := do
  let published ← publishedChecksum req up
  if published.isZero then metadataChecksum nested req else pure published

/-- `fetchAndStore`: nothing is stored before the checksum is verified. -/
def fetchAndStore (nested : ServeRequest → Reading Result) (req : ServeRequest) (up : Upstream) :
    Reading Manifest := do
  let expected ← expectedChecksum nested req up
  let (response, published) ← openArtifactStream req up
  let content ← inContext ("ingest " ++ req.intent.coord.text ++ ": download") (.lift response.body)
  .lift (verifyChecksum (if expected.isZero then published else expected) (digests env content))
  storeBlob env (env.digest "sha256" content) content
  let n ← inContext "store manifest" (operation env)
  let m := ingestedManifest env req response content (env.now n)
  .update fun s =>
    { s with manifests := s.manifests.put (req.feed.name, req.intent.remotePath) (.ok m) }
  pure m

/-- `ingestArtifact`: under the lock the manifest is looked up again. -/
def ingestArtifact (nested : ServeRequest → Reading Result) (req : ServeRequest) (up : Upstream) :
    Reading Manifest := do
  let _ ← operation env
  match ← (loadManifest env req.feed.name req.intent.remotePath).attempt with
  | .ok m => pure m
  | .error _ => fetchAndStore env nested req up

/-- `serveArtifact`. -/
def serveArtifact (nested : ServeRequest → Reading Result) (req : ServeRequest) :
    Reading Result := do
  match ← (loadManifest env req.feed.name req.intent.remotePath).attempt with
  | .ok m =>
    match ← (artifactResult env req.intent m .cache).attempt with
    | .ok result => pure result
    | .error error =>
      -- the manifest is here but its blob is not: a peer may hold it
      match ← (fromPeerBlob env req m).attempt with
      | .ok result => pure result
      | .error _ => .fail error
  | .error error =>
    if error.wraps ≠ some .notFound then .fail error
    else
      match ← (fromPeer env req).attempt with
      | .ok result => pure result
      | .error _ =>
        match req.upstream with
        | none =>
          .fail (.wrapping .notFound
            ("artifact " ++ req.intent.coord.text ++ " not hosted here"))
        | some up => do
          let m ← ingestArtifact env nested req up
          artifactResult env req.intent m .upstream

/-! ## Documents -/

/-- `refreshMetadata`. -/
def refreshMetadata (req : ServeRequest) (up : Upstream) (key : PathKey) : Reading Unit := do
  let (body, contentType) ←
    fetchAll up (.path req.intent.remotePath req.intent.remoteQuery req.intent.accept)
  let rewritten ← inContext ("rewrite metadata " ++ req.intent.coord.text)
    (.lift (req.module.rewriteMetadata req.feed body))
  let n ← inContext "store metadata" (operation env)
  let document : Document := ⟨rewritten, env.now n, env.digest "sha256" rewritten, contentType⟩
  .update fun s => { s with documents := s.documents.put key document }

/-- A hosted document: the coordinate of that path, or else the stored index. -/
def hostedDocument (req : ServeRequest) (key : PathKey) (cached : Bool) : Reading Result := do
  match ← (loadManifest env req.feed.name req.intent.remotePath).attempt with
  | .ok m => openBlob env m .here
  | .error _ =>
    if cached then openMeta env key .here
    else .fail (.wrapping .notFound ("metadata " ++ req.intent.coord.text ++ " not hosted here"))

/-- A proxied document: refreshed, or stale when the upstream does not answer. -/
def proxiedDocument (req : ServeRequest) (up : Upstream) (key : PathKey) (cached : Bool) :
    Reading Result := do
  match ← (refreshMetadata env req up key).attempt with
  | .ok () => openMeta env key .upstream
  | .error error =>
    if error.wraps = some .notFound then .fail error
    else if cached then openMeta env key .stale
    else .fail error

/-- `serveMetadataBody`. -/
def serveMetadataBody (req : ServeRequest) : Reading Result := do
  let key := metaKey env req.feed req.intent
  let found ← (getDocument env key).attempt
  let n ← tick
  let fresh := found.toOption.any fun document =>
    0 < req.intent.cacheTTL && env.now n - document.modTime < req.intent.cacheTTL
  if fresh then openMeta env key .cache
  else
    match req.upstream with
    | none => hostedDocument env req key found.toOption.isSome
    | some up => proxiedDocument env req up key found.toOption.isSome

/-- `serveMetadata`: a checksum of a document is that of the bytes served here. -/
def serveMetadata (req : ServeRequest) : Reading Result := do
  let result ← serveMetadataBody env req
  if req.intent.wantChecksum = "" then pure result
  else
    match hasherFor env req.intent.wantChecksum with
    | none =>
      .fail (.wrapping .notFound
        ("unsupported checksum algorithm " ++ req.intent.wantChecksum.quote))
    | some hasher => pure (textResult (hasher result.body) result.source)

/-! ## Serving -/

/-- `Serve`, given how a metadata document is served. -/
def serveWith (nested : ServeRequest → Reading Result) (req : ServeRequest) : Reading Result :=
  if !validRemotePath req.intent.remotePath then
    .fail (.wrapping .notFound ("invalid path " ++ req.intent.remotePath.quote))
  else
    match req.intent.kind with
    | .artifact => serveArtifact env nested req
    | .metadata | .search => serveMetadata env req
    | .synthetic => .fail ⟨none, "unknown intent kind \"synthetic\""⟩

/-- `Serve` with lookups of metadata documents down to a depth. -/
def serveAt : Nat → ServeRequest → Reading Result
  | 0 => serveWith env fun _ => .fail ⟨none, "metadata lookup nested too deep"⟩
  | depth + 1 => serveWith env (serveAt depth)

/-- `Serve`. -/
def serve (req : ServeRequest) : Reading Result :=
  serveAt env env.depth req

section Kinds

variable {env} {req : ServeRequest}

variable (env req) in
/-- `Serve` dispatches, with some way to look up metadata documents. -/
theorem serve_eq : ∃ nested, serve env req = serveWith env nested req := by
  unfold serve
  cases env.depth with
  | zero | succ depth => exact ⟨_, rfl⟩

section

variable (hvalid : validRemotePath req.intent.remotePath = true)

include hvalid

theorem serve_artifact (hkind : req.intent.kind = .artifact) :
    ∃ nested, serve env req = serveArtifact env nested req := by
  obtain ⟨nested, hserve⟩ := serve_eq env req
  refine ⟨nested, ?_⟩
  rw [hserve]
  unfold serveWith
  rw [if_neg (by simp [hvalid]), hkind]

theorem serve_metadata (hkind : req.intent.kind = .metadata ∨ req.intent.kind = .search) :
    serve env req = serveMetadata env req := by
  obtain ⟨nested, hserve⟩ := serve_eq env req
  rw [hserve]
  unfold serveWith
  rw [if_neg (by simp [hvalid])]
  rcases hkind with hkind | hkind <;> rw [hkind]

theorem serve_cases (hkind : req.intent.kind ≠ .synthetic) :
    (∃ nested, serve env req = serveArtifact env nested req) ∨
      serve env req = serveMetadata env req := by
  cases h : req.intent.kind with
  | artifact => exact .inl (serve_artifact hvalid h)
  | metadata => exact .inr (serve_metadata hvalid (.inl h))
  | search => exact .inr (serve_metadata hvalid (.inr h))
  | synthetic => exact absurd h hkind

end

end Kinds

end FondacoFormal.Pipeline
