import FondacoFormal.Formats.OciNames
import FondacoFormal.Formats.OciPush
import FondacoFormal.Pipeline.Immutability

/-!
# The rows of an OCI feed

What it means that every image of a feed is complete, and what justifies a row: a blob row its
digest, a manifest row its body and the rows it names, a tag row the manifest it points to.
-/

namespace FondacoFormal.Formats.Oci

open Library State Repl Pipeline Server Auth

/-! ## The promise -/

def rowAt (feed path : String) (h : Home) : Option HostedRow :=
  h.site.hosted.find (feed, path)

def stored (sha256 : String) (h : Home) : Prop :=
  (h.objects.find (Storage.blobKey sha256)).isSome = true

structure HostedAt (feed path coordinate sha256 : String) (h : Home) : Prop where
  row : ∃ row, rowAt feed path h = some row ∧ row.coordinate = coordinate ∧ row.sha256 = sha256
  stored : stored sha256 h

def BlobHosted (feed repo sha256 : String) (h : Home) : Prop :=
  HostedAt feed (blobPath repo ("sha256:" ++ sha256)) ("oci:" ++ repo) sha256 h

def ManifestHosted (feed repo reference sha256 : String) (h : Home) : Prop :=
  HostedAt feed (manifestPath repo reference) ("oci:" ++ repo ++ "@" ++ reference) sha256 h

def Layer.foreign (layer : Layer) : Bool :=
  ".foreign.diff.tar.gzip".toList.isSuffixOf layer.mediaType.toList

structure Complete (feed repo : String) (doc : ManifestDoc) (h : Home) : Prop where
  config : doc.config ≠ "" →
    ∃ sha256, doc.config = "sha256:" ++ sha256 ∧ BlobHosted feed repo sha256 h
  layers : ∀ layer ∈ doc.layers, layer.digest ≠ "" → layer.foreign = false →
    ∃ sha256, layer.digest = "sha256:" ++ sha256 ∧ BlobHosted feed repo sha256 h
  children : ∀ child ∈ doc.manifests, child ≠ "" →
    ∃ sha256, child = "sha256:" ++ sha256 ∧ ManifestHosted feed repo child sha256 h

structure Closed (r : Registry) (feed : String) (h : Home) : Prop where
  rows : ∀ path row, rowAt feed path h = some row →
    (∃ repo, path = blobPath repo ("sha256:" ++ row.sha256) ∧
      BlobHosted feed repo row.sha256 h) ∨
    (∃ repo reference, path = manifestPath repo reference ∧
      (reference = "sha256:" ++ row.sha256 ∨ validTag reference = true) ∧
      ManifestHosted feed repo reference row.sha256 h)
  manifests : ∀ repo sha256, ManifestHosted feed repo ("sha256:" ++ sha256) sha256 h →
    ∃ body doc, h.objects.find (Storage.blobKey sha256) = some body ∧
      r.unmarshal body = .ok doc ∧ Complete feed repo doc h
  tags : ∀ repo tag sha256, validTag tag = true → ManifestHosted feed repo tag sha256 h →
    ManifestHosted feed repo ("sha256:" ++ sha256) sha256 h

/-! ## Digests -/

def NamesDigests (doc : ManifestDoc) : Prop :=
  ∀ d ∈ referencedBlobs doc ++ doc.manifests.filter (fun digest => digest ≠ ""),
    (parseDigest d).isSome = true

structure Digests (hash : Bytes → String) : Prop where
  hexDigits : ∀ content, hexDigits (hash content) = true
  injective : Function.Injective hash

/-! ## What rows rest on -/

/-- The paths `checkReferences` asks for. -/
def references (repo : String) (doc : ManifestDoc) : List String :=
  (referencedBlobs doc).map (blobPath repo) ++
    (doc.manifests.filter fun digest => digest ≠ "").map (manifestPath repo)

inductive Placed (r : Registry) (feed : String) (h : Home) : String → String → String → Prop where
  | blob (repo sha256 : String) (digits : hexDigits sha256 = true) :
      Placed r feed h (blobPath repo ("sha256:" ++ sha256)) ("oci:" ++ repo) sha256
  | manifest (repo : String) (body : Bytes) (doc : ManifestDoc)
      (content : h.objects.find (Storage.blobKey (r.hash body)) = some body)
      (decoded : r.unmarshal body = .ok doc) (names : NamesDigests doc)
      (hosted : ∀ path ∈ references repo doc, (rowAt feed path h).isSome = true) :
      Placed r feed h (manifestPath repo ("sha256:" ++ r.hash body))
        ("oci:" ++ repo ++ "@" ++ ("sha256:" ++ r.hash body)) (r.hash body)
  | tag (repo tag sha256 : String) (valid : validTag tag = true) (digits : hexDigits sha256 = true)
      (target : (rowAt feed (manifestPath repo ("sha256:" ++ sha256)) h).isSome = true) :
      Placed r feed h (manifestPath repo tag) ("oci:" ++ repo ++ "@" ++ tag) sha256

def Tidy (r : Registry) (feed : String) (h : Home) : Prop :=
  ∀ path row, rowAt feed path h = some row →
    Placed r feed h path row.coordinate row.sha256 ∧ stored row.sha256 h

structure Grows (r : Registry) (feed : String) (h later : Home) : Prop where
  rows : ∀ path, (rowAt feed path h).isSome = true →
    (rowAt feed path later).isSome = true
  contents : ∀ body, h.objects.find (Storage.blobKey (r.hash body)) = some body →
    later.objects.find (Storage.blobKey (r.hash body)) = some body
  stored : ∀ sha256, stored sha256 h → stored sha256 later

namespace Grows

variable {r : Registry} {feed : String} {h later last : Home}

theorem refl (h : Home) : Grows r feed h h :=
  ⟨fun _ => id, fun _ => id, fun _ => id⟩

theorem trans (first : Grows r feed h later) (second : Grows r feed later last) :
    Grows r feed h last :=
  ⟨fun path hrow => second.rows path (first.rows path hrow),
    fun body hbody => second.contents body (first.contents body hbody),
    fun sha256 hstored => second.stored sha256 (first.stored sha256 hstored)⟩

end Grows

section Rows

variable {r : Registry} {h later : Home} {feed path coordinate sha256 : String}

theorem Placed.mono (placed : Placed r feed h path coordinate sha256)
    (grows : Grows r feed h later) :
    Placed r feed later path coordinate sha256 := by
  cases placed with
  | blob repo sha256 digits => exact .blob repo sha256 digits
  | manifest repo body doc content decoded names hosted =>
    exact .manifest repo body doc (grows.contents body content) decoded names
      fun path hmem => grows.rows path (hosted path hmem)
  | tag repo tag sha256 valid digits target =>
    exact .tag repo tag sha256 valid digits (grows.rows _ target)

section

variable (digests : Digests r.hash)

include digests

section

variable (placed : Placed r feed h path coordinate sha256)

include placed

theorem Placed.shape :
    ∃ repo reference, '/' ∉ reference.toList ∧
      (path = blobPath repo reference ∧ coordinate = "oci:" ++ repo ∨
        path = manifestPath repo reference ∧ coordinate = "oci:" ++ repo ++ "@" ++ reference) := by
  cases placed with
  | blob repo sha256 digits =>
    exact ⟨repo, _, not_slash_of_hexDigits digits, .inl ⟨rfl, rfl⟩⟩
  | manifest repo body =>
    exact ⟨repo, _, not_slash_of_hexDigits (digests.hexDigits body), .inr ⟨rfl, rfl⟩⟩
  | tag repo tag sha256 valid =>
    exact ⟨repo, tag, (validTag_chars valid).1, .inr ⟨rfl, rfl⟩⟩

theorem Placed.coordinate_unique {coordinate' sha256' : String}
    (other : Placed r feed later path coordinate' sha256') : coordinate = coordinate' := by
  obtain ⟨repo, reference, hslash, ⟨hpath, hcoord⟩ | ⟨hpath, hcoord⟩⟩ := placed.shape digests
  all_goals
    obtain ⟨repo', reference', hslash', ⟨hpath', hcoord'⟩ | ⟨hpath', hcoord'⟩⟩ :=
      other.shape digests
  · rw [hcoord, hcoord', (blobPath_injective hslash hslash' (hpath.symm.trans hpath')).1]
  · exact absurd (hpath.symm.trans hpath') (blobPath_ne_manifestPath hslash hslash')
  · exact absurd (hpath'.symm.trans hpath) (blobPath_ne_manifestPath hslash' hslash)
  · obtain ⟨hrepo, hreference⟩ :=
      manifestPath_injective hslash hslash' (hpath.symm.trans hpath')
    rw [hcoord, hcoord', hrepo, hreference]

theorem Placed.digits : hexDigits sha256 = true := by
  cases placed with
  | blob repo sha256 digits => exact digits
  | manifest repo body => exact digests.hexDigits body
  | tag repo tag sha256 valid digits => exact digits

end

/-! ## Justified rows are a closed feed -/

variable {repo reference : String}

theorem Placed.blob_inv (hslash : '/' ∉ reference.toList)
    (placed : Placed r feed h (blobPath repo reference) coordinate sha256) :
    reference = "sha256:" ++ sha256 ∧ coordinate = "oci:" ++ repo := by
  generalize hpath : blobPath repo reference = path at placed
  cases placed with
  | blob repo' sha256 digits =>
    obtain ⟨hrepo, hreference⟩ :=
      blobPath_injective hslash (not_slash_of_hexDigits digits) hpath
    exact ⟨hreference, by rw [hrepo]⟩
  | manifest repo' body =>
    exact absurd hpath (blobPath_ne_manifestPath hslash
      (not_slash_of_hexDigits (digests.hexDigits body)))
  | tag repo' tag sha256 valid =>
    exact absurd hpath (blobPath_ne_manifestPath hslash (validTag_chars valid).1)

theorem Placed.manifest_inv (hslash : '/' ∉ reference.toList)
    (placed : Placed r feed h (manifestPath repo reference) coordinate sha256) :
    coordinate = "oci:" ++ repo ++ "@" ++ reference ∧
      ((reference = "sha256:" ++ sha256 ∧ ∃ body doc,
          h.objects.find (Storage.blobKey sha256) = some body ∧ r.unmarshal body = .ok doc ∧
          NamesDigests doc ∧
          ∀ path ∈ references repo doc, (rowAt feed path h).isSome = true) ∨
        (validTag reference = true ∧
          (rowAt feed (manifestPath repo ("sha256:" ++ sha256)) h).isSome = true)) := by
  generalize hpath : manifestPath repo reference = path at placed
  cases placed with
  | blob repo' sha256 digits =>
    exact absurd hpath.symm (blobPath_ne_manifestPath (not_slash_of_hexDigits digits) hslash)
  | manifest repo' body doc content decoded names hosted =>
    obtain ⟨rfl, rfl⟩ := manifestPath_injective hslash
      (not_slash_of_hexDigits (digests.hexDigits body)) hpath
    exact ⟨rfl, .inl ⟨rfl, body, doc, content, decoded, names, hosted⟩⟩
  | tag repo' tag sha256 valid digits target =>
    obtain ⟨rfl, rfl⟩ := manifestPath_injective hslash (validTag_chars valid).1 hpath
    exact ⟨rfl, .inr ⟨valid, target⟩⟩

end

namespace Tidy

variable (digests : Digests r.hash) (tidy : Tidy r feed h)

include digests tidy

theorem blobHosted (hslash : '/' ∉ reference.toList)
    (hrow : (rowAt feed (blobPath repo reference) h).isSome = true) :
    ∃ sha256, reference = "sha256:" ++ sha256 ∧ BlobHosted feed repo sha256 h := by
  obtain ⟨row, hfind⟩ := Option.isSome_iff_exists.1 hrow
  obtain ⟨placed, hstored⟩ := tidy _ row hfind
  obtain ⟨hreference, hcoord⟩ := placed.blob_inv digests hslash
  rw [hreference] at hfind
  exact ⟨row.sha256, hreference, ⟨row, hfind, hcoord, rfl⟩, hstored⟩

theorem manifestHosted (hslash : '/' ∉ reference.toList) (hcolon : ':' ∈ reference.toList)
    (hrow : (rowAt feed (manifestPath repo reference) h).isSome = true) :
    ∃ sha256, reference = "sha256:" ++ sha256 ∧
      ManifestHosted feed repo reference sha256 h := by
  obtain ⟨row, hfind⟩ := Option.isSome_iff_exists.1 hrow
  obtain ⟨placed, hstored⟩ := tidy _ row hfind
  obtain ⟨hcoord, ⟨hreference, -⟩ | ⟨hvalid, -⟩⟩ := placed.manifest_inv digests hslash
  · exact ⟨row.sha256, hreference, ⟨row, hfind, hcoord, rfl⟩, hstored⟩
  · exact absurd hcolon (validTag_chars hvalid).2

theorem complete {doc : ManifestDoc} (names : NamesDigests doc)
    (hosted : ∀ path ∈ references repo doc, (rowAt feed path h).isSome = true) :
    Complete feed repo doc h := by
  have hblob : ∀ d ∈ referencedBlobs doc,
      ∃ sha256, d = "sha256:" ++ sha256 ∧ BlobHosted feed repo sha256 h := by
    intro d hmem
    refine tidy.blobHosted digests (parseDigest_chars (names d (List.mem_append_left _ hmem))).1 ?_
    exact hosted _ (List.mem_append_left _ (List.mem_map_of_mem hmem))
  constructor
  case config =>
    intro hconfig
    exact hblob _ (List.mem_append_left _ (by simp [hconfig]))
  case layers =>
    intro layer hmem hdigest hforeign
    rw [Layer.foreign] at hforeign
    refine hblob _ (List.mem_append_right _ (List.mem_map_of_mem (List.mem_filter.2 ⟨hmem, ?_⟩)))
    simp only [hforeign, Bool.not_false, Bool.and_true, decide_eq_true_eq]
    exact hdigest
  case children =>
    intro child hmem hchild
    have hfilter : child ∈ doc.manifests.filter fun digest => digest ≠ "" :=
      List.mem_filter.2 ⟨hmem, by simpa using hchild⟩
    obtain ⟨hslash, hcolon⟩ := parseDigest_chars (names child (List.mem_append_right _ hfilter))
    exact tidy.manifestHosted digests hslash hcolon
      (hosted _ (List.mem_append_right _ (List.mem_map_of_mem hfilter)))

theorem closed : Closed r feed h := by
  have hdigits : ∀ path row, rowAt feed path h = some row →
      '/' ∉ ("sha256:" ++ row.sha256).toList := fun path row hfind =>
    not_slash_of_hexDigits ((tidy path row hfind).1.digits digests)
  constructor
  case rows =>
    intro path row hfind
    obtain ⟨placed, hstored⟩ := tidy path row hfind
    generalize hcoord : row.coordinate = coordinate at placed
    generalize hsha : row.sha256 = sha256 at placed hstored
    cases placed with
    | blob repo sha256 digits =>
      exact .inl ⟨repo, rfl, ⟨row, hfind, hcoord, hsha⟩, hstored⟩
    | manifest repo body =>
      exact .inr ⟨repo, _, rfl, .inl rfl, ⟨row, hfind, hcoord, hsha⟩, hstored⟩
    | tag repo tag sha256 valid =>
      exact .inr ⟨repo, tag, rfl, .inr valid, ⟨row, hfind, hcoord, hsha⟩, hstored⟩
  case manifests =>
    rintro repo sha256 ⟨⟨row, hfind, -, rfl⟩, -⟩
    obtain ⟨-, ⟨-, body, doc, content, decoded, names, hosted⟩ | ⟨hvalid, -⟩⟩ :=
      (tidy _ row hfind).1.manifest_inv digests (hdigits _ row hfind)
    · exact ⟨body, doc, content, decoded, tidy.complete digests names hosted⟩
    · exact absurd (by simp [String.toList_append]) (validTag_chars hvalid).2
  case tags =>
    rintro repo tag sha256 hvalid ⟨⟨row, hfind, -, rfl⟩, -⟩
    have hslash := (validTag_chars hvalid).1
    obtain ⟨-, ⟨hreference, -⟩ | ⟨-, htarget⟩⟩ :=
      (tidy _ row hfind).1.manifest_inv digests hslash
    · refine absurd ?_ (validTag_chars hvalid).2
      rw [hreference]
      simp [String.toList_append]
    · obtain ⟨sha256, heq, hmanifest⟩ := tidy.manifestHosted digests (hdigits _ row hfind)
        (by simp [String.toList_append]) htarget
      have hsame : row.sha256 = sha256 := by
        apply String.toList_injective
        have := congrArg String.toList heq
        rw [String.toList_append, String.toList_append] at this
        exact List.append_cancel_left this
      rwa [hsame] at hmanifest ⊢

end Tidy

end Rows

/-! ## One operation -/

variable {site : SiteState} {req : PublishRequest} {clock : TxClock} {created : Bool} {core : Core}

section Operations

variable {r : Registry} {feed : String} {h : Home}

theorem grows_of_same {h later : Home}
    (hrows : ∀ path, rowAt feed path later = rowAt feed path h)
    (hobjects : later.objects = h.objects) : Grows r feed h later := by
  refine ⟨fun path hrow => ?_, fun body hbody => ?_, fun sha256 hstored => ?_⟩
  · rwa [hrows]
  · rwa [hobjects]
  · rwa [stored, hobjects]

theorem Tidy.of_grows {later : Home} (tidy : Tidy r feed h)
    (hrows : ∀ path, rowAt feed path later = rowAt feed path h) (grows : Grows r feed h later) :
    Tidy r feed later := by
  intro path row hfind
  rw [hrows] at hfind
  obtain ⟨placed, hstored⟩ := tidy path row hfind
  exact ⟨placed.mono grows, grows.stored _ hstored⟩

theorem staged_of_precheck {staged : Bool} (hcheck : precheck req staged = none) :
    staged = true := by
  rw [precheck] at hcheck
  split at hcheck
  · cases hcheck
  · split at hcheck
    · cases hcheck
    · split at hcheck
      · cases hcheck
      · next hstaged => simpa using hstaged

/-- `publishDeps.Publish` refuses, or records a row whose bytes are in the store. -/
theorem depsPublish_cases (s : ServerRuntime) (fr : FeedRuntime) (id : Identity)
    (given : PublishRequest) (h : Home) :
    (∃ ticks error, depsPublish s fr id given h = ({ h with ticks := ticks }, .error error)) ∨
      (∃ site stamp created, stored given.sha256 h ∧
        s.core.publisher.insert { given with identity := id.text } (s.core.clock h.ticks) h.site =
          .ok (site, stamp, created) ∧
        depsPublish s fr id given h =
          (s.core.record { given with identity := id.text } site stamp created h,
            .ok ⟨created, given.sha256⟩)) := by
  rw [depsPublish]
  dsimp only
  split
  · exact .inl ⟨h.ticks, _, rfl⟩
  · split
    · exact .inl ⟨h.ticks, _, rfl⟩
    · rw [Core.publish]
      dsimp only
      split
      · exact .inl ⟨_, _, rfl⟩
      · split
        · exact .inl ⟨_, _, rfl⟩
        · exact .inl ⟨_, _, rfl⟩
        · exact .inl ⟨_, _, rfl⟩
        · next hcheck hfault =>
            split
            · exact .inl ⟨_, _, rfl⟩
            · next site stamp created hinsert =>
                exact .inr ⟨site, stamp, created, staged_of_precheck hcheck, hinsert, rfl⟩

theorem put_tidy (tidy : Tidy r feed h) {later : Home} {path : String} (row : HostedRow)
    (placed : Placed r feed h path row.coordinate row.sha256) (hstored : stored row.sha256 h)
    (hhosted : later.site.hosted = h.site.hosted.put (feed, path) row)
    (hobjects : later.objects = h.objects) :
    Tidy r feed later ∧ Grows r feed h later ∧ (rowAt feed path later).isSome = true := by
  have hself : rowAt feed path later = some row := by
    rw [rowAt, hhosted, Table.find_put_self]
  have hothers : ∀ other, other ≠ path →
      rowAt feed other later = rowAt feed other h := by
    intro other hother
    rw [rowAt, hhosted, Table.find_put_of_ne]
    · rfl
    · exact fun heq => hother (Prod.ext_iff.1 heq).2
  have grows : Grows r feed h later := by
    refine ⟨fun other hrow => ?_, fun body hbody => by rwa [hobjects], fun sha256 hsha => ?_⟩
    · by_cases hother : other = path
      · rw [hother, hself]; rfl
      · rwa [hothers other hother]
    · rwa [stored, hobjects]
  refine ⟨fun other found hfind => ?_, grows, by rw [hself]; rfl⟩
  by_cases hother : other = path
  · subst hother
    rw [hself] at hfind
    cases hfind
    exact ⟨placed.mono grows, grows.stored _ hstored⟩
  · rw [hothers other hother] at hfind
    obtain ⟨hplaced, hpresent⟩ := tidy other found hfind
    exact ⟨hplaced.mono grows, grows.stored _ hpresent⟩

/-- A publish whose row is justified keeps the feed in order, and leaves a row behind. -/
theorem record_tidy (digests : Digests r.hash) (tidy : Tidy r feed h) (req : PublishRequest)
    (hfeed : req.feed = feed) (placed : Placed r feed h req.path req.coord req.sha256)
    (hstored : stored req.sha256 h) {stamp : HLC}
    (hinsert : core.publisher.insert req clock h.site = .ok (site, stamp, created)) :
    Tidy r feed (core.record req site stamp created h) ∧
      Grows r feed h (core.record req site stamp created h) ∧
      (rowAt feed req.path (core.record req site stamp created h)).isSome = true := by
  cases insert_effect hinsert with
  | kept found same hosted journal =>
    have hrow : ∀ path, rowAt feed path (core.record req site stamp false h) =
        rowAt feed path h := fun path => by
      change site.hosted.find _ = _
      rw [hosted]; rfl
    have grows : Grows r feed h (core.record req site stamp false h) := grows_of_same hrow rfl
    refine ⟨tidy.of_grows hrow grows, grows, ?_⟩
    rw [hrow, rowAt, ← hfeed]
    exact Option.isSome_iff_exists.2 ⟨_, found⟩
  | @written stamped row announced silent =>
    cases row with
    | created absent written =>
      refine put_tidy tidy (publishedRow core.publisher.site req stamped) placed hstored ?_ rfl
      rw [← hfeed]
      exact written.hosted
    | @republished existing present mutables differs written =>
      rw [hfeed] at present
      have hcoord := (tidy _ existing present).1.coordinate_unique digests placed
      refine put_tidy tidy (HostedRow.republish existing core.publisher.site req stamped) ?_
        hstored ?_ rfl
      · change Placed r feed h req.path existing.coordinate req.sha256
        rwa [hcoord]
      · rw [← hfeed]
        exact written.hosted

theorem record_elsewhere (req : PublishRequest) (hfeed : req.feed ≠ feed) {stamp : HLC}
    (hinsert : core.publisher.insert req clock h.site = .ok (site, stamp, created))
    (path : String) :
    rowAt feed path (core.record req site stamp created h) = rowAt feed path h := by
  cases insert_effect hinsert with
  | kept found same hosted journal =>
    change site.hosted.find _ = _
    rw [hosted]
    rfl
  | written row announced silent =>
    exact rowWritten_elsewhere row fun heq => hfeed (Prod.ext_iff.1 heq).1.symm

theorem depsPublish_tidy (digests : Digests r.hash) (tidy : Tidy r feed h) (fr : FeedRuntime)
    (identity : Identity)
    (placed : req.feed = feed → Placed r feed h req.path req.coord req.sha256) :
    Tidy r feed (depsPublish r.server fr identity req h).1 ∧
      Grows r feed h (depsPublish r.server fr identity req h).1 ∧
      (req.feed = feed → ∀ result, (depsPublish r.server fr identity req h).2 = .ok result →
        (rowAt feed req.path (depsPublish r.server fr identity req h).1).isSome = true) := by
  rcases depsPublish_cases r.server fr identity req h with
    ⟨ticks, error, heq⟩ | ⟨site, stamp, created, hstored, hinsert, heq⟩
  · rw [heq]
    have grows : Grows r feed h { h with ticks := ticks } := grows_of_same (fun _ => rfl) rfl
    exact ⟨tidy.of_grows (fun _ => rfl) grows, grows, fun _ => nofun⟩
  · rw [heq]
    by_cases hfeed : req.feed = feed
    · obtain ⟨hkept, grows, hrow⟩ := record_tidy digests tidy
        { req with identity := identity.text } hfeed (placed hfeed) hstored hinsert
      exact ⟨hkept, grows, fun _ _ _ => hrow⟩
    · have hrows := record_elsewhere { req with identity := identity.text } hfeed hinsert
      have grows := grows_of_same (r := r) hrows rfl
      exact ⟨tidy.of_grows hrows grows, grows, fun hsame => absurd hsame hfeed⟩

end Operations

end FondacoFormal.Formats.Oci
