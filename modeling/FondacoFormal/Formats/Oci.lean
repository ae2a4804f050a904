import FondacoFormal.Server.Publish

/-!
# Pushing to an OCI repository

`HandlePublishHTTP` of the OCI module: blob uploads, mounts and manifests.  A push
is several requests; what was staged so far is only in the blob store.  Texts are
read from the request byte by byte.
-/

namespace FondacoFormal.Formats.Oci

open State Repl Server

/-! ## Texts of a request -/

def textOf (bytes : Bytes) : String :=
  String.ofList (bytes.map fun b => Char.ofNat b.toNat)

/-- `QueryUnescape`. -/
def queryUnescape (raw : Bytes) : Option Bytes :=
  unescape (raw.map fun b => if b = 43 then 32 else b)

/-- One pair of `url.ParseQuery`; what does not parse is left out. -/
def queryPair (raw : Bytes) : Option (Bytes × Bytes) :=
  if raw = [] ∨ raw.contains 59 then none
  else
    match queryUnescape (cutAt 61 raw).1, queryUnescape (cutAt 61 raw).2 with
    | some key, some value => some (key, value)
    | _, _ => none

/-- `r.URL.Query().Get(name)`. -/
def queryGet (query : Bytes) (name : String) : String :=
  match ((query.splitOn 38).filterMap queryPair).find? fun pair => textOf pair.1 = name with
  | some pair => textOf pair.2
  | none => ""

/-- `strings.LastIndex` and the texts around it. -/
def cutLast (separator : List Char) : List Char → Option (List Char × List Char)
  | [] => none
  | c :: rest =>
    match cutLast separator rest with
    | some (before, after) => some (c :: before, after)
    | none =>
      if separator.isPrefixOf (c :: rest) then some ([], (c :: rest).drop separator.length)
      else none

/-- `strings.Contains`. -/
def contains (part s : List Char) : Bool :=
  s.tails.any fun tail => part.isPrefixOf tail

/-! ## The path grammar -/

/-- `refKind`. -/
inductive RefKind where
  | manifest
  | blob
  | upload
  | tags
  deriving DecidableEq, Repr

/-- `parsedRef`. -/
structure ParsedRef where
  repo : String
  kind : RefKind
  reference : String
  deriving DecidableEq, Repr

/-- One character of `validRepoSegment`: whether the one before was a separator. -/
def repoChar (previousSeparator : Option Bool) (c : Char) : Option Bool :=
  match previousSeparator with
  | none => none
  | some previous =>
    if c.isLower || c.isDigit then some false
    else if c = '.' || c = '_' || c = '-' then
      if previous && c ≠ '-' && c ≠ '_' then none else some true
    else none

/-- `validRepoSegment`. -/
def validRepoSegment (s : List Char) : Bool :=
  s ≠ [] && s.foldl repoChar (some true) = some false

/-- `validRepo`. -/
def validRepo (name : String) : Option Failure :=
  if name = "" || 255 < name.utf8ByteSize then
    some (.wrapping .notFound ("repository name " ++ name.quote ++ " is not usable"))
  else if (name.toList.splitOn '/').all validRepoSegment then none
  else some (.wrapping .badRequest
    ("repository name " ++ name.quote ++ " is not lowercase alphanumeric with separators"))

def refOf (repo : List Char) (kind : RefKind) (reference : List Char) :
    Except Failure ParsedRef :=
  match validRepo (String.ofList repo) with
  | some error => .error error
  | none => .ok ⟨String.ofList repo, kind, String.ofList reference⟩

def segmentRef (repo : List Char) (kind : RefKind) (what : String) (reference : List Char) :
    Except Failure ParsedRef :=
  match validRepo (String.ofList repo) with
  | some error => .error error
  | none =>
    if reference = [] || reference.contains '/' then
      .error (.wrapping .notFound
        ("not a " ++ what ++ " reference: " ++ (String.ofList reference).quote))
    else .ok ⟨String.ofList repo, kind, String.ofList reference⟩

/-- `parseRef`. -/
def parseRef (rest : List Char) : Except Failure ParsedRef :=
  if "/tags/list".toList.isSuffixOf rest then
    refOf (rest.take (rest.length - 10)) .tags []
  else
    match cutLast "/blobs/uploads/".toList rest, cutLast "/manifests/".toList rest,
      cutLast "/blobs/".toList rest with
    | some (repo, reference), _, _ => refOf repo .upload reference
    | none, some (repo, reference), _ => segmentRef repo .manifest "manifest" reference
    | none, none, some (repo, reference) => segmentRef repo .blob "blob" reference
    | none, none, none =>
      .error (.wrapping .notFound ("unsupported registry path: " ++ (String.ofList rest).quote))

/-- `parseDigest`: the algorithm and the digits. -/
def parseDigest (reference : String) : Option (String × String) :=
  let algo := reference.toList.takeWhile fun c => c ≠ ':'
  match reference.toList.drop algo.length with
  | [] => none
  | _ :: digits =>
    let want := if algo = "sha256".toList then 64 else if algo = "sha512".toList then 128 else 0
    if want = 0 || digits.length ≠ want then none
    else if digits.all fun c => c.isDigit || ('a' ≤ c && c ≤ 'f') then
      some (String.ofList algo, String.ofList digits)
    else none

/-- `validTag`. -/
def validTag (tag : String) : Bool :=
  match tag.toList with
  | [] => false
  | first :: rest =>
    tag.utf8ByteSize ≤ 128 && (first.isAlphanum || first = '_') &&
      rest.all fun c => c.isAlphanum || c = '.' || c = '_' || c = '-'

/-- `validUploadID`. -/
def validUploadID (id : String) : Bool :=
  8 ≤ id.utf8ByteSize && id.utf8ByteSize ≤ 64 &&
    id.toList.all fun c =>
      c.isDigit || ('a' ≤ c && c ≤ 'f') || ('A' ≤ c && c ≤ 'F') || c = '-'

def notASession (id : String) : Failure :=
  .wrapping .notFound ("upload " ++ id.quote ++ " is not a session")

/-! ## Paths, keys and answers -/

/-- `feedURL`. -/
def feedURL (feed : String) : String :=
  "/v2/oci/" ++ feed

/-- `blobPath`. -/
def blobPath (repo digest : String) : String :=
  "v2/" ++ repo ++ "/blobs/" ++ digest

/-- `manifestPath`. -/
def manifestPath (repo reference : String) : String :=
  "v2/" ++ repo ++ "/manifests/" ++ reference

/-- `uploadKeyPrefix`. -/
def uploadKeyStart (feed repo uploadID : String) : String :=
  "uploads/" ++ feed ++ "/" ++ repo ++ "/" ++ uploadID ++ "/"

/-- The key of a part, its offset padded to `partWidth`. -/
def partKey (feed repo uploadID : String) (offset : Nat) : String :=
  let digits := (toString offset).toList
  uploadKeyStart feed repo uploadID ++
    String.ofList (List.replicate (16 - digits.length) '0' ++ digits)

/-- `uploadAccepted`. -/
def uploadAccepted (feed repo uploadID : String) (written : Nat) : Response where
  status := 202
  headers := [("Location", feedURL feed ++ "/" ++ repo ++ "/blobs/uploads/" ++ uploadID),
    ("Docker-Upload-UUID", uploadID), ("Range", "0-" ++ toString (written - 1)),
    ("Content-Length", "0")]
  body := []

/-- `blobLocation` with a 201. -/
def blobCreated (feed repo digest : String) : Response where
  status := 201
  headers := [("Location", feedURL feed ++ "/" ++ repo ++ "/blobs/" ++ digest),
    ("Docker-Content-Digest", digest), ("Content-Length", "0")]
  body := []

/-- `strings.TrimSpace`. -/
def trimSpace (s : List Char) : List Char :=
  ((s.dropWhile Char.isWhitespace).reverse.dropWhile Char.isWhitespace).reverse

/-- `strconv.ParseInt` to 64 bits, of a text without a minus sign. -/
def parseOffset (s : List Char) : Option Nat :=
  let digits := if s.head? = some '+' then s.drop 1 else s
  if digits ≠ [] && digits.all Char.isDigit then
    let value := digits.foldl (fun n c => n * 10 + (c.toNat - 48)) 0
    if value < 2 ^ 63 then some value else none
  else none

/-- `rangeStart`. -/
def rangeStart (header : String) : Option Nat :=
  let trimmed := trimSpace header.toList
  let span := if "bytes ".toList.isPrefixOf trimmed then trimmed.drop 6 else trimmed
  if span.contains '-' then parseOffset (trimSpace (span.takeWhile fun c => c ≠ '-')) else none

/-! ## Uploads -/

/-- `publishBlob`. -/
def publishBlob (feed repo sha256hex : String) (size : Nat) (next : Handling) : Handling :=
  .publish
    { feed := feed
      path := blobPath repo ("sha256:" ++ sha256hex)
      coord := "oci:" ++ repo
      sha256 := sha256hex
      size := size
      checksums := [("sha256", sha256hex)]
      metadata := some { rest := [("content_type", "application/octet-stream")] }
      mutable := false
      identity := "" }
    fun
    | .error error => .fail (error.within ("publish blob sha256:" ++ sha256hex))
    | .ok _ => next

/-- `stagedParts`. -/
def stagedParts (start : String) (next : List (String × Nat) → Handling) : Handling :=
  .ask (.list start) fun
    | .error error => .fail (Failure.within "list staged chunks" error)
    | .ok parts => next parts

def totalSize (parts : List (String × Nat)) : Nat :=
  (parts.map Prod.snd).sum

/-- `stagePart`. -/
def stagePart (feed repo uploadID : String) (offset : Nat) (body : Bytes) (next : Handling) :
    Handling :=
  .ask (.put (partKey feed repo uploadID offset) body {}) fun
    | .error error => .fail (Failure.within "stage upload chunk" error)
    | .ok _ => next

/-- The loop of `deleteParts`. -/
def deleteKeys (next : Handling) : List (String × Nat) → Handling
  | [] => next
  | (key, _) :: rest =>
    .ask (.delete key) fun
      | .error error => .fail (Failure.within "discard staged chunk" error)
      | .ok _ => deleteKeys next rest

/-- `deleteParts`. -/
def deleteParts (start : String) (next : Handling) : Handling :=
  stagedParts start (deleteKeys next)

/-- `partsReader`: the parts in order as one text; the store fails if one cannot be read. -/
def readParts (uploadID : String) (next : Bytes → Handling) :
    List (String × Nat) → Bytes → Handling
  | [], content => next content
  | (key, _) :: rest, content =>
    .ask (.get key) fun
      | .error error => .fail (Failure.within ("commit upload " ++ uploadID)
          (Failure.within "read staged chunk" error))
      | .ok (part : Bytes) => readParts uploadID next rest (content ++ part)

/-- `commitUpload`. -/
def commitUpload (feed repo uploadID digest : String) : Handling :=
  match parseDigest digest with
  | none => .fail (.wrapping .badRequest ("digest " ++ digest.quote ++ " is not a digest"))
  | some (algo, hex) =>
    if algo ≠ "sha256" then
      .fail (.wrapping .badRequest
        ("this registry addresses content by sha256, not " ++ algo))
    else
      let start := uploadKeyStart feed repo uploadID
      stagedParts start fun parts =>
        if parts = [] then
          .fail (.wrapping .badRequest ("upload " ++ uploadID ++ " has nothing staged"))
        else
          readParts uploadID (fun content =>
            .ask (.put (Storage.blobKey hex) content
                ⟨hex, totalSize parts, "application/octet-stream"⟩) fun
              | .error error => .fail (Failure.within ("commit upload " ++ uploadID) error)
              | .ok _ =>
                publishBlob feed repo hex (totalSize parts)
                  (deleteParts start (.respond (blobCreated feed repo digest)))) parts []

/-- `startUpload` after a mount that was not asked for or not possible. -/
def newUpload (feed repo : String) (req : Request) : Handling :=
  .ask .draw fun
    | .error error => .fail (Failure.within "generate an upload id" error)
    | .ok uploadID =>
      let digest := queryGet req.query "digest"
      if digest ≠ "" then
        stagePart feed repo uploadID 0 req.body (commitUpload feed repo uploadID digest)
      else .respond (uploadAccepted feed repo uploadID 0)

/-- `startUpload`. -/
def startUpload (feed repo : String) (req : Request) : Handling :=
  let mount := queryGet req.query "mount"
  if mount ≠ "" then
    match parseDigest mount with
    | none => .fail (.wrapping .badRequest ("mount digest " ++ mount.quote ++ " is not a digest"))
    | some (_, hex) =>
      .ask (.stat (Storage.blobKey hex)) fun
        | .ok size =>
          publishBlob feed repo hex size (.respond (blobCreated feed repo ("sha256:" ++ hex)))
        | .error _ => newUpload feed repo req
  else newUpload feed repo req

/-- `appendChunk`. -/
def appendChunk (feed repo uploadID : String) (req : Request) : Handling :=
  if !validUploadID uploadID then .fail (notASession uploadID)
  else
    stagedParts (uploadKeyStart feed repo uploadID) fun parts =>
      let offset := totalSize parts
      if (rangeStart req.headers.contentRange.val).any fun start => start ≠ offset then
        .respond ⟨416, [("Range", "0-" ++ toString (offset - 1))], []⟩
      else
        stagePart feed repo uploadID offset req.body
          (.respond (uploadAccepted feed repo uploadID (offset + req.body.length)))

/-- `finishUpload`. -/
def finishUpload (feed repo uploadID : String) (req : Request) : Handling :=
  if !validUploadID uploadID then .fail (notASession uploadID)
  else
    let digest := queryGet req.query "digest"
    if digest = "" then
      .fail (.wrapping .badRequest "a completed upload must name the digest it produced")
    else
      stagedParts (uploadKeyStart feed repo uploadID) fun parts =>
        stagePart feed repo uploadID (totalSize parts) req.body
          (commitUpload feed repo uploadID digest)

/-! ## What an upload does -/

structure BlobRequest (feed repo sha256hex : String) (req : PublishRequest) : Prop where
  feed : req.feed = feed
  path : req.path = blobPath repo ("sha256:" ++ sha256hex)
  coord : req.coord = "oci:" ++ repo
  sha256 : req.sha256 = sha256hex

def Reads (c : Conduct) (contents : Bytes → Prop) (key : String) : Prop :=
  c.asks (.get key) ∧ ∀ (content chunk : Bytes), contents content →
    c.hears (.get key) (.ok chunk) → contents (content ++ chunk)

/-- What the completion of an upload may do; what it reads from its parts is one of `contents`. -/
structure Completes (c : Conduct) (contents : Bytes → Prop) (feed repo uploadID : String) :
    Prop where
  lists : c.asks (.list (uploadKeyStart feed repo uploadID))
  parts : ∀ parts : List (String × Nat),
    c.hears (.list (uploadKeyStart feed repo uploadID)) (.ok parts) →
      ∀ part ∈ parts, c.asks (.delete part.1) ∧ Reads c contents part.1
  empty : contents []
  commits : ∀ digest algo hex, parseDigest digest = some (algo, hex) → ∀ content, contents content →
    ∀ size contentType, c.asks (.put (Storage.blobKey hex) content ⟨hex, size, contentType⟩) ∧
      (c.hears (.put (Storage.blobKey hex) content ⟨hex, size, contentType⟩) (.ok ()) →
        ∀ req, BlobRequest feed repo hex req → c.publishes req)

section

variable {c : Conduct} {contents : Bytes → Prop} {start feed repo uploadID : String}
  {body : Bytes} {req : Request} {next : Handling}

theorem publishBlob_keeps {hex : String} {size : Nat}
    (hreq : ∀ req, BlobRequest feed repo hex req → c.publishes req) (hnext : c.Keeps next) :
    c.Keeps (publishBlob feed repo hex size next) := by
  refine .publish (hreq _ ⟨rfl, rfl, rfl, rfl⟩) ?_
  rintro (error | result)
  · exact .fail _
  · exact hnext

theorem stagePart_keeps {offset : Nat}
    (hput : c.asks (.put (partKey feed repo uploadID offset) body {})) (hnext : c.Keeps next) :
    c.Keeps (stagePart feed repo uploadID offset body next) := by
  refine .ask hput ?_
  rintro (error | done) -
  · exact .fail _
  · exact hnext

section

variable (hlist : c.asks (.list start))

include hlist

theorem stagedParts_keeps {next : List (String × Nat) → Handling}
    (hnext : ∀ parts, c.hears (.list start) (.ok parts) → c.Keeps (next parts)) :
    c.Keeps (stagedParts start next) := by
  refine .ask hlist ?_
  rintro (error | parts) heard
  · exact .fail _
  · exact hnext parts heard

theorem deleteParts_keeps (hnext : c.Keeps next)
    (hdelete : ∀ parts : List (String × Nat), c.hears (.list start) (.ok parts) → ∀ part ∈ parts,
      c.asks (.delete part.1)) : c.Keeps (deleteParts start next) := by
  refine stagedParts_keeps hlist fun parts heard => ?_
  have hparts := hdelete parts heard
  clear heard
  induction parts with
  | nil => exact hnext
  | cons part rest ih =>
    obtain ⟨hpart, hrest⟩ := List.forall_mem_cons.1 hparts
    refine .ask hpart ?_
    rintro (error | done) -
    · exact .fail _
    · exact ih hrest

end

theorem readParts_keeps {next : Bytes → Handling}
    (hnext : ∀ content, contents content → c.Keeps (next content)) {parts : List (String × Nat)}
    (hparts : ∀ part ∈ parts, Reads c contents part.1) {content : Bytes}
    (hcontent : contents content) : c.Keeps (readParts uploadID next parts content) := by
  induction parts generalizing content with
  | nil => exact hnext content hcontent
  | cons part rest ih =>
    obtain ⟨⟨hget, hchunk⟩, hrest⟩ := List.forall_mem_cons.1 hparts
    refine .ask hget ?_
    rintro (error | chunk) heard
    · exact .fail _
    · exact ih hrest (hchunk content chunk hcontent heard)

theorem commitUpload_keeps (completes : Completes c contents feed repo uploadID) (digest : String) :
    c.Keeps (commitUpload feed repo uploadID digest) := by
  rw [commitUpload]
  split
  · exact .fail _
  · next algo hex hparse =>
      dsimp only
      split
      · exact .fail _
      · refine stagedParts_keeps completes.lists fun parts heard => ?_
        split
        · exact .fail _
        · refine readParts_keeps (fun content hcontent => ?_)
            (fun part hmem => (completes.parts parts heard part hmem).2) completes.empty
          obtain ⟨hput, hpublish⟩ := completes.commits digest algo hex hparse content hcontent
            (totalSize parts) "application/octet-stream"
          refine .ask hput ?_
          rintro (error | done) heard
          · exact .fail _
          · exact publishBlob_keeps (hpublish heard) (deleteParts_keeps completes.lists (.respond _)
              fun parts heard part hmem => (completes.parts parts heard part hmem).1)

theorem finishUpload_keeps (completes : Completes c contents feed repo uploadID)
    (hstage : ∀ offset, c.asks (.put (partKey feed repo uploadID offset) req.body {})) :
    c.Keeps (finishUpload feed repo uploadID req) := by
  rw [finishUpload]
  split
  · exact .fail _
  · dsimp only
    split
    · exact .fail _
    · exact stagedParts_keeps completes.lists fun parts _ =>
        stagePart_keeps (hstage _) (commitUpload_keeps completes _)

theorem appendChunk_keeps (hlist : c.asks (.list (uploadKeyStart feed repo uploadID)))
    (hstage : ∀ offset, c.asks (.put (partKey feed repo uploadID offset) req.body {})) :
    c.Keeps (appendChunk feed repo uploadID req) := by
  rw [appendChunk]
  split
  · exact .fail _
  · refine stagedParts_keeps hlist fun parts _ => ?_
    dsimp only
    split
    · exact .respond _
    · exact stagePart_keeps (hstage _) (.respond _)

section

variable (hdraw : c.asks .draw)
  (hupload : ∀ uploadID, Completes c contents feed repo uploadID ∧
    c.asks (.put (partKey feed repo uploadID 0) req.body {}))

include hdraw hupload

theorem newUpload_keeps : c.Keeps (newUpload feed repo req) := by
  refine .ask hdraw ?_
  rintro (error | uploadID) -
  · exact .fail _
  · dsimp only
    split
    · exact stagePart_keeps (hupload uploadID).2 (commitUpload_keeps (hupload uploadID).1 _)
    · exact .respond _

theorem startUpload_keeps (hmount : ∀ digest algo hex, parseDigest digest = some (algo, hex) →
      c.asks (.stat (Storage.blobKey hex)) ∧ ∀ size,
        c.hears (.stat (Storage.blobKey hex)) (.ok size) →
        ∀ req, BlobRequest feed repo hex req → c.publishes req) :
    c.Keeps (startUpload feed repo req) := by
  rw [startUpload]
  split
  · split
    · exact .fail _
    · next algo hex hparse =>
        obtain ⟨hstat, hblob⟩ := hmount _ algo hex hparse
        refine .ask hstat ?_
        rintro (error | size) heard
        · exact newUpload_keeps hdraw hupload
        · exact publishBlob_keeps (hblob size heard) (.respond _)
  · exact newUpload_keeps hdraw hupload

end

end

/-! ## Manifests -/

structure Layer where
  digest : String
  mediaType : String
  deriving DecidableEq, Repr

/-- `manifestDoc`. -/
structure ManifestDoc where
  mediaType : String
  config : String
  layers : List Layer
  manifests : List String
  deriving DecidableEq, Repr

/-- `acceptableMediaType`. -/
def acceptableMediaType (mediaType : String) : Bool :=
  ["application/vnd.docker.distribution.manifest.v2+json",
    "application/vnd.docker.distribution.manifest.list.v2+json",
    "application/vnd.oci.image.manifest.v1+json",
    "application/vnd.oci.image.index.v1+json"].contains
      (String.ofList (mediaType.toList.takeWhile fun c => c ≠ ';'))

/-- `referencedBlobs`. -/
def referencedBlobs (doc : ManifestDoc) : List String :=
  (if doc.config ≠ "" then [doc.config] else []) ++
    (doc.layers.filter fun layer => layer.digest ≠ "" &&
      !(".foreign.diff.tar.gzip".toList.isSuffixOf layer.mediaType.toList)).map Layer.digest

/-- `requirePublished` for each path in turn. -/
def requirePublished (next : Handling) : List String → Handling
  | [] => next
  | path :: rest =>
    .ask (.manifests path) fun
      | .error error => .fail (Failure.within ("check " ++ path) error)
      | .ok (rows : List (PathKey × HostedRow)) =>
        if rows.any fun row => row.1.2 = path then requirePublished next rest
        else .fail (.wrapping .badRequest ("the manifest references " ++
          String.ofList (path.toList.drop 3) ++ ", which has not been uploaded"))

/-- `checkReferences`. -/
def checkReferences (repo : String) (doc : ManifestDoc) (next : Handling) : Handling :=
  requirePublished next ((referencedBlobs doc).map (blobPath repo) ++
    (doc.manifests.filter fun digest => digest ≠ "").map (manifestPath repo))

def manifestRequest (feed repo version digest mediaType : String) (size : Nat) (mutable : Bool) :
    PublishRequest where
  feed := feed
  path := manifestPath repo version
  coord := "oci:" ++ repo ++ "@" ++ version
  sha256 := digest
  size := size
  checksums := [("sha256", digest)]
  metadata := some { rest := [("content_type", mediaType)] }
  mutable := mutable
  identity := ""

def manifestCreated (feed repo digest : String) : Response where
  status := 201
  headers := [("Location", feedURL feed ++ "/" ++ repo ++ "/manifests/sha256:" ++ digest),
    ("Docker-Content-Digest", "sha256:" ++ digest)]
  body := []

section

/- `sha256Hex`, and `json.Unmarshal` into a `manifestDoc`. -/
variable (hash : Bytes → String) (unmarshal : Bytes → Except String ManifestDoc)

def referenceFailure (digest reference : String) : Option Failure :=
  match parseDigest reference with
  | some (algo, hex) =>
    if algo ≠ "sha256" || !Storage.equalFold hex digest then
      some (.wrapping .checksumMismatch
        ("manifest digest is sha256:" ++ digest ++ ", not " ++ reference))
    else none
  | none =>
    if !validTag reference then
      some (.wrapping .badRequest ("tag " ++ reference.quote ++ " is not a tag"))
    else none

/-- The writes of `putManifest`. -/
def storeManifest (feed repo reference mediaType digest : String) (body : Bytes) : Handling :=
  .ask (.put (Storage.blobKey digest) body ⟨digest, body.length, mediaType⟩) fun
    | .error error => .fail (Failure.within "store manifest" error)
    | .ok _ =>
      .publish (manifestRequest feed repo ("sha256:" ++ digest) digest mediaType body.length false)
        fun
        | .error error => .fail (error.within ("publish manifest sha256:" ++ digest))
        | .ok _ =>
          -- a tag is a second coordinate, one that may move
          if (parseDigest reference).isSome then .respond (manifestCreated feed repo digest)
          else
            .publish (manifestRequest feed repo reference digest mediaType body.length true) fun
              | .error error =>
                .fail (error.within ("point " ++ repo ++ ":" ++ reference ++
                  " at sha256:" ++ digest))
              | .ok _ => .respond (manifestCreated feed repo digest)

/-- `putManifest`. -/
def putManifest (feed repo reference : String) (req : Request) : Handling :=
  if 8 * 2 ^ 20 < req.body.length then
    .fail (.wrapping .badRequest "manifest exceeds 8388608 bytes")
  else
    match unmarshal req.body with
    | .error cause =>
      .fail (.wrapping .badRequest ("manifest is not a JSON document: " ++ cause))
    | .ok doc =>
      let declared := req.headers.contentType.val
      let mediaType := if declared = "" then doc.mediaType else declared
      if !acceptableMediaType mediaType then
        .fail (.wrapping .badRequest
          ("media type " ++ mediaType.quote ++ " is not an image manifest or index"))
      else
        match referenceFailure (hash req.body) reference with
        | some error => .fail error
        | none =>
          checkReferences repo doc
            (storeManifest feed repo reference mediaType (hash req.body) req.body)

def dispatch (feed : String) (req : Request) (path : String) (ref : ParsedRef) : Handling :=
  match req.method, ref.kind with
  | "POST", .upload => startUpload feed ref.repo req
  | "POST", _ => .fail (.wrapping .notFound ("nothing is written by POST at " ++ path.quote))
  | "PATCH", kind =>
    if kind ≠ .upload || ref.reference = "" then
      .fail (.wrapping .notFound ("not an upload session: " ++ path.quote))
    else appendChunk feed ref.repo ref.reference req
  | "PUT", .upload =>
    if ref.reference = "" then
      .fail (.wrapping .notFound ("not an upload session: " ++ path.quote))
    else finishUpload feed ref.repo ref.reference req
  | "PUT", .manifest => putManifest hash unmarshal feed ref.repo ref.reference req
  | "PUT", _ => .fail (.wrapping .notFound ("nothing is written by PUT at " ++ path.quote))
  | "DELETE", kind =>
    if kind = .upload && ref.reference ≠ "" then
      deleteParts (uploadKeyStart feed ref.repo ref.reference) (.respond ⟨204, [], []⟩)
    else .fail (.wrapping .forbidden ("a published image is immutable; take it out of " ++
      "circulation with quarantine instead of deleting it"))
  | method, _ =>
    .fail (.wrapping .badRequest ("method " ++ method ++ " is not part of this protocol"))

/-- `HandlePublishHTTP`. -/
def handlePublishHTTP (feed : String) (req : Request) : Handling :=
  let path := (textOf (trimSlash req.path)).toList
  if contains ['.', '.'] path then
    .fail (.wrapping .notFound ("invalid path " ++ (String.ofList path).quote))
  else if !"v2/".toList.isPrefixOf path then
    .fail (.wrapping .notFound ("not a registry API path: " ++ (String.ofList path).quote))
  else
    match parseRef (path.drop 3) with
    | .error error => .fail error
    | .ok ref => dispatch hash unmarshal feed req (String.ofList path) ref

def hoster : Hoster where
  responds := true
  handle := handlePublishHTTP hash unmarshal
  reindex _ objects := objects
  challenge := "Basic realm=\"fondaco\""

end

end FondacoFormal.Formats.Oci
