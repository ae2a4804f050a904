import FondacoFormal.Formats.OciPush
import FondacoFormal.Server.ReadDecision

/-!
# Reading from an OCI repository

`Parse` of the OCI module, and what it takes that an identity can read the bytes of a digest at
a coordinate of any feed.
-/

namespace FondacoFormal.Formats.Oci

open Library.Program State Pipeline Server Api Auth

/-! ## Parsing a read request -/

/-- `tagTTL`. -/
def tagTTL : Int := 120

/-- `manifestAccept`. -/
def manifestAccept : String :=
  "application/vnd.oci.image.index.v1+json, application/vnd.oci.image.manifest.v1+json, " ++
    "application/vnd.docker.distribution.manifest.list.v2+json, " ++
    "application/vnd.docker.distribution.manifest.v2+json"

def listingIntent (repo remotePath query : String) : Intent where
  kind := .search
  coord := ⟨"oci", repo, ""⟩
  cacheTTL := tagTTL
  remotePath := remotePath
  remoteQuery := query
  contentType := "application/json"

def manifestIntent (repo reference remotePath : String) : Intent :=
  match parseDigest reference with
  | some (algo, hex) =>
    { kind := .artifact
      coord := ⟨"oci", repo, reference⟩
      remotePath := remotePath
      checksum := ⟨algo, hex⟩
      accept := manifestAccept }
  | none =>
    { kind := .metadata
      coord := ⟨"oci", repo, reference⟩
      cacheTTL := tagTTL
      remotePath := remotePath
      accept := manifestAccept }

def blobIntent (repo remotePath algo hex : String) : Intent where
  kind := .artifact
  coord := ⟨"oci", repo, ""⟩
  remotePath := remotePath
  checksum := ⟨algo, hex⟩
  contentType := "application/octet-stream"

def refIntent (path remotePath query : String) (ref : ParsedRef) : Except Failure Intent :=
  match ref.kind with
  | .tags => .ok (listingIntent ref.repo remotePath query)
  | .manifest => .ok (manifestIntent ref.repo ref.reference remotePath)
  | .blob =>
    match parseDigest ref.reference with
    | some (algo, hex) => .ok (blobIntent ref.repo remotePath algo hex)
    | none => .error (.wrapping .notFound
        ("blob reference " ++ ref.reference.quote ++ " is not a digest"))
  | .upload => .error (.wrapping .notFound ("unsupported registry path: " ++ path.quote))

/-- `Parse`. -/
def parse (req : ReadRequest) : Except Failure Intent :=
  let path := if req.path.toList.head? = some '/' then req.path.toList.drop 1 else req.path.toList
  let text := String.ofList path
  if contains ['.', '.'] path then .error (.wrapping .notFound ("invalid path " ++ text.quote))
  else if !"v2/".toList.isPrefixOf path then
    .error (.wrapping .notFound ("not a registry API path: " ++ text.quote))
  else
    let rest := path.drop 3
    if rest = "_catalog".toList then .ok (listingIntent "" "v2/_catalog" req.query)
    else
      match parseRef rest with
      | .error error => .error error
      | .ok ref => refIntent text ("v2/" ++ String.ofList rest) req.query ref

/-! ## What can be read -/

/-- The feeds of a site that are not groups, and what their metadata documents say of a
coordinate.  A group serves its members under their own rules, so it adds nothing. -/
structure Readers where
  feeds : List ReadFeed
  facts : ReadFeed → Intent → StringMap

def Named (h : Home) (key : PathKey) (sha256 : String) : Prop :=
  ∃ m, h.projections.find key = some m ∧ m.sha256 = sha256

def Holds (r : Registry) (h : Home) (sha256 : String) (content : Bytes) : Prop :=
  h.objects.find (Storage.blobKey sha256) = some content ∧ r.hash content = sha256

/-- The identity can read the bytes of a digest at a coordinate of a feed. -/
structure Readable (r : Registry) (readers : Readers) (id : Identity) (h : Home) (fr : ReadFeed)
    (intent : Intent) (sha256 : String) : Prop where
  mounted : fr ∈ readers.feeds
  parsed : ∃ req, fr.module.parse req = .ok intent
  bytes : intent.wantChecksum = ""
  valid : validRemotePath intent.remotePath = true
  access : (mayServe r.server.engine id fr.feed.name intent).allowed = true
  free : activeRow (quarantineOf h.site fr.feed.name) intent.coord.text = none
  resolve : (fr.chain.onResolve id intent.coord).allow = true
  manifest : Named h (fr.feed.name, intent.remotePath) sha256
  content : ∃ content, Holds r h sha256 content ∧
    (fr.chain.onServe id
      ⟨intent.coord, content.length, sha256, readers.facts fr intent⟩).allow = true

def CanRead (r : Registry) (readers : Readers) (id : Identity) (h : Home) (sha256 : String) :
    Prop :=
  ∃ fr intent, Readable r readers id h fr intent sha256

def ReadableAt (r : Registry) (readers : Readers) (id : Identity) (h : Home) (fr : ReadFeed)
    (repo sha256 : String) : Prop :=
  ∃ intent, intent.remotePath = blobPath repo ("sha256:" ++ sha256) ∧
    Readable r readers id h fr intent sha256

theorem ReadableAt.canRead {r : Registry} {readers : Readers} {id : Identity} {h : Home}
    {fr : ReadFeed} {repo sha256 : String} (readable : ReadableAt r readers id h fr repo sha256) :
    CanRead r readers id h sha256 := by
  obtain ⟨intent, -, readable⟩ := readable
  exact ⟨fr, intent, readable⟩

/-! ## What can be read is served -/

structure SameSite (s : ReadStore) (h : Home) : Prop where
  manifests : ∀ key, s.manifests.find key = (h.projections.find key).map .ok
  blobs : ∀ sha256, s.blobs.find sha256 = h.objects.find (Storage.blobKey sha256)
  tables : s.tables = h.site

section Served

variable {server : ReadServer} {s : ReadStore}

def storedResult (m : Manifest) (content : Bytes) : Result where
  body := content
  size := content.length
  sha256 := m.sha256
  source := .cache
  blobKey := Storage.blobKey m.sha256
  contentType := Pipeline.lookup m.metadata.rest "content_type"

theorem serve_stored (req : ServeRequest) {m : Manifest} {content : Bytes}
    (hcalm : ∀ n, server.env.fault n = none)
    (hkind : req.intent.kind = .artifact) (hbytes : req.intent.wantChecksum = "")
    (hvalid : validRemotePath req.intent.remotePath = true)
    (hmanifest : s.manifests.find (req.feed.name, req.intent.remotePath) = some (.ok m))
    (hblob : s.blobs.find m.sha256 = some content) :
    (serve server.env req s).2 = .ok (storedResult m content) := by
  obtain ⟨nested, hserve⟩ : ∃ nested, serve server.env req = serveArtifact server.env nested req :=
    serve_artifact hvalid hkind
  have hget : getBlob server.env m.sha256 { s with ticks := s.ticks + 1 } =
      ({ s with ticks := s.ticks + 2 }, .ok content) :=
    getBlob_found (hcalm _) hblob
  rw [hserve, serveArtifact, bind_of_ok (attempt_run (loadManifest_found (hcalm _) hmanifest))]
  dsimp only
  rw [artifactResult, if_pos hbytes, openBlob, inContext]
  simp only [bind_apply, attempt, hget, pure_apply]
  rfl

theorem Readable.served {r : Registry} {readers : Readers} {id : Identity} {h : Home}
    {fr : ReadFeed} {intent : Intent} {sha256 : String} {req : ReadRequest}
    (readable : Readable r readers id h fr intent sha256) (hsite : SameSite s h)
    (hengine : server.engine = r.server.engine) (hcalm : ∀ n, server.env.fault n = none)
    (huncached : s.entries.find (fr.feed.name, intent.coord.text) = none)
    (hparse : fr.module.parse req = .ok intent) (hkind : intent.kind = .artifact)
    (hsource : fr.module.metadataSource = none) (hfacts : readers.facts fr intent = [])
    (hstreamed : fr.redirect = false) :
    ∃ content response, Holds r h sha256 content ∧
      (feedHandler server fr id req s).2 = .ok response ∧ response.status = 200 ∧
      response.body = content := by
  obtain ⟨m, hm, rfl⟩ := readable.manifest
  obtain ⟨content, holds, hserve⟩ := readable.content
  rw [hfacts] at hserve
  have hfree := readable.free
  rw [← hsite.tables] at hfree
  have hserved : ∀ t, SameObjects t s →
      (serve server.env (fr.request intent) t).2 = .ok (storedResult m content) := by
    intro t same
    refine serve_stored (fr.request intent) hcalm hkind readable.bytes readable.valid ?_ ?_
    · rw [same.manifests, hsite.manifests]
      exact congrArg (Option.map Except.ok) hm
    · rw [same.blobs, hsite.blobs]
      exact holds.1
  obtain ⟨response, hrun, ⟨-, hrefusal⟩ | ⟨-, hsent⟩⟩ :=
    feedHandler_decided hcalm hparse hkind hserved id
  · exfalso
    rcases hrefusal with hdenied | ⟨-, hblock⟩ | hrefused | ⟨hdescribed, hrefused⟩
    · simp [hengine, readable.access] at hdenied
    · rw [huncached] at hblock
      simp [quarantinedAt, hfree] at hblock
    · simp [readable.resolve] at hrefused
    · have hmetadata : artifactMetadata server fr intent = pure [] := by
        rw [artifactMetadata, hsource]
        exact ite_self _
      rw [describedBy, hmetadata] at hdescribed
      cases hdescribed
      exact absurd (hserve.symm.trans hrefused) (by simp)
  · exact ⟨content, response, holds, hrun, hsent.resolve_right (by simp [hstreamed])⟩

end Served

end FondacoFormal.Formats.Oci
