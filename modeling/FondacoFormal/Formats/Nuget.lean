import FondacoFormal.Formats.Hosted
import FondacoFormal.Formats.Oci
import FondacoFormal.Library.Calendar
import FondacoFormal.Library.Json

/-!
# NuGet packages

Reading the V3 protocol and pushing packages.  A push takes id and version from the
nuspec and stores under their lower-case form; a read takes both from the address.
-/

namespace FondacoFormal.Formats.Nuget

open Library Api Server

/-! ## Reading -/

/-- `upstreamFlatPrefix`. -/
def upstreamFlat : String := "v3-flatcontainer/"

/-- `upstreamRegistrationPrefix`. -/
def upstreamRegistration : String := "v3/registration5-gz-semver2/"

/-- `parseRegistration`. -/
def parseRegistration (p rest : String) : Except Failure Intent :=
  match Text.cut rest '/' with
  | none => .error (.wrapping .notFound ("not a registration path: " ++ p.quote))
  | some (id, _) =>
    if id = "" then .error (.wrapping .notFound ("not a registration path: " ++ p.quote))
    else
      .ok {
        kind := .metadata
        coord := ⟨"nuget", id, ""⟩
        cacheTTL := 300
        remotePath := upstreamRegistration ++ rest
        contentType := "application/json" }

/-- `parseFlatContainer`. -/
def parseFlatContainer (p rest : String) : Except Failure Intent :=
  let segs := Text.split rest '/'
  if segs.any fun s => s = "" then
    .error (.wrapping .notFound ("invalid flat container path: " ++ p.quote))
  else
    match segs with
    | [id, file] =>
      if file = "index.json" then
        .ok {
          kind := .metadata
          coord := ⟨"nuget", id, ""⟩
          cacheTTL := 300
          remotePath := upstreamFlat ++ rest
          contentType := "application/json" }
      else .error (.wrapping .notFound ("unsupported flat container path: " ++ p.quote))
    | [id, version, file] =>
      .ok {
        kind := .artifact
        coord := ⟨"nuget", id, version⟩
        remotePath := upstreamFlat ++ rest
        contentType := if Text.hasSuffix file ".nuspec" then "application/xml"
          else "application/octet-stream" }
    | _ => .error (.wrapping .notFound ("unsupported flat container path: " ++ p.quote))

/-- `Parse`. -/
def parse (r : ReadRequest) : Except Failure Intent :=
  let p := Text.trimPrefix r.path "/"
  if p = "" || Text.contains p ".." then
    .error (.wrapping .notFound ("invalid path " ++ p.quote))
  else if p = "v3/index.json" then
    .ok {
      kind := .synthetic
      coord := ⟨"nuget", "service-index", ""⟩
      remotePath := p
      contentType := "application/json" }
  else if Text.hasPrefix p "v3/registration/" then
    parseRegistration p (Text.trimPrefix p "v3/registration/")
  else if Text.hasPrefix p upstreamRegistration then
    parseRegistration p (Text.trimPrefix p upstreamRegistration)
  else if Text.hasPrefix p "v3/flat2/" then
    parseFlatContainer p (Text.trimPrefix p "v3/flat2/")
  else if Text.hasPrefix p upstreamFlat then
    parseFlatContainer p (Text.trimPrefix p upstreamFlat)
  else if Text.hasPrefix p "v3/query" then
    .ok {
      kind := .search
      coord := ⟨"nuget", "search", ""⟩
      cacheTTL := 60
      remotePath := p
      remoteQuery := r.query
      contentType := "application/json" }
  else .error (.wrapping .notFound ("unsupported nuget path: " ++ p.quote))

/-! ## Pushing -/

structure ZipEntry where
  name : String
  modified : Int
  opened : Except String (Except String Bytes)

structure Parts where
  bodies : List (Except String Bytes)
  broken : Option String := none

structure Dependency where
  id : String
  range : String
  deriving DecidableEq

/-- `dependencyGroup`. -/
structure DependencyGroup where
  targetFramework : String
  dependencies : List Dependency
  deriving DecidableEq

/-- `nuspec`. -/
structure Nuspec where
  id : String
  version : String
  authors : String := ""
  description : String := ""
  license : String := ""
  licenseURL : String := ""
  projectURL : String := ""
  groups : List DependencyGroup := []
  flat : List Dependency := []
  deriving DecidableEq

/-- Functions of the standard library: the media type of a header and its boundary, the
parts of a body, zip archives, the XML of a nuspec, `strings.ToLower`. -/
structure Decoders where
  mediaType : String → Option (String × String)
  parts : Request → Except String Parts
  unzip : Bytes → Except String (List ZipEntry)
  nuspec : Bytes → Except String Nuspec
  lower : String → String

structure Digests where
  sha256 : Bytes → String
  sha512 : Bytes → String

/-- `maxPushSize`. -/
def maxPushSize : Nat :=
  512 * 2 ^ 20

def firstPart : List (Except String Bytes) → Option String → Except Failure Bytes
  | [], none => .error (.wrapping .badRequest "the push carried no package")
  | [], some error => .error (.wrapping .badRequest ("read multipart push: " ++ error))
  | .error error :: _, _ => .error ⟨none, "read pushed package: " ++ error⟩
  | .ok body :: rest, broken =>
    if body.take maxPushSize = [] then firstPart rest broken else .ok (body.take maxPushSize)

/-- `readPushedPackage`. -/
def readPushedPackage (d : Decoders) (r : Request) : Except Failure Bytes :=
  match d.mediaType r.headers.contentType.val with
  | some (mediaType, boundary) =>
    if Text.hasPrefix mediaType "multipart/" then
      if boundary = "" then
        .error (.wrapping .badRequest "multipart push without a boundary")
      else
        match d.parts r with
        | .error error => .error (.wrapping .badRequest ("read multipart push: " ++ error))
        | .ok parts => firstPart parts.bodies parts.broken
    else wholeBody
  | none => wholeBody
where
  wholeBody : Except Failure Bytes :=
    if r.body.take maxPushSize = [] then
      .error (.wrapping .badRequest "the push carried no package")
    else .ok (r.body.take maxPushSize)

def isManifest (d : Decoders) (entry : ZipEntry) : Bool :=
  !Text.holds entry.name '/' && Text.hasSuffix (d.lower entry.name) ".nuspec"

/-- `readNuspec`: the manifest and its bytes. -/
def readNuspec (d : Decoders) (pkg : Bytes) : Except Failure (Nuspec × Bytes) :=
  match d.unzip pkg with
  | .error error =>
    .error (.wrapping .badRequest ("the pushed package is not a valid .nupkg: " ++ error))
  | .ok files =>
    match files.find? (isManifest d) with
    | none => .error (.wrapping .badRequest "the pushed package contains no .nuspec")
    | some file =>
      match file.opened with
      | .error error => .error ⟨none, "open " ++ file.name ++ ": " ++ error⟩
      | .ok (.error error) => .error ⟨none, "read " ++ file.name ++ ": " ++ error⟩
      | .ok (.ok content) =>
        -- the reader stops after 8 MiB
        match d.nuspec (content.take (8 * 2 ^ 20)) with
        | .error error =>
          .error (.wrapping .badRequest ("parse " ++ file.name ++ ": " ++ error))
        | .ok spec => .ok (spec, content.take (8 * 2 ^ 20))

/-- `nupkgPath`. -/
def nupkgPath (d : Decoders) (id version : String) : String :=
  upstreamFlat ++ d.lower id ++ "/" ++ d.lower version ++ "/" ++ d.lower id ++ "." ++
    d.lower version ++ ".nupkg"

/-- `nuspecPath`. -/
def nuspecPath (d : Decoders) (id version : String) : String :=
  upstreamFlat ++ d.lower id ++ "/" ++ d.lower version ++ "/" ++ d.lower id ++ ".nuspec"

/-- `statePath`. -/
def statePath (d : Decoders) (id version : String) : String :=
  "-hosted/" ++ d.lower id ++ "/" ++ d.lower version ++ ".json"

/-- `licenseOf`. -/
def licenseOf (spec : Nuspec) : String :=
  let license := String.ofList (Oci.trimSpace spec.license.toList)
  if license ≠ "" then license else String.ofList (Oci.trimSpace spec.licenseURL.toList)

/-- `publishedAt`: the newest time in the archive. -/
def publishedAt (d : Decoders) (pkg : Bytes) : String :=
  match d.unzip pkg with
  | .error _ => Calendar.rfc3339 Calendar.zeroTime
  | .ok files =>
    Calendar.rfc3339 (files.foldl (fun newest file => max newest file.modified) Calendar.zeroTime)

/-- `dependencyGroupsOf`. -/
def dependencyGroupsOf (spec : Nuspec) : List DependencyGroup :=
  spec.groups ++ if spec.flat = [] then [] else [⟨"", spec.flat⟩]

/-- `hostedVersion`. -/
structure HostedVersion where
  id : String
  version : String
  authors : String := ""
  description : String := ""
  license : String := ""
  licenseURL : String := ""
  projectURL : String := ""
  published : String
  groups : List DependencyGroup := []
  deriving DecidableEq

def unlessEmpty (name value : String) : List (String × Json) :=
  if value = "" then [] else [(name, .str value)]

def unlessNone (name : String) (items : List Json) : List (String × Json) :=
  if items.isEmpty then [] else [(name, .arr items)]

def Dependency.json (dep : Dependency) : Json :=
  .obj (("id", .str dep.id) :: unlessEmpty "range" dep.range)

def DependencyGroup.json (group : DependencyGroup) : Json :=
  .obj (unlessEmpty "target_framework" group.targetFramework ++
    unlessNone "dependencies" (group.dependencies.map Dependency.json))

def HostedVersion.json (v : HostedVersion) : Json :=
  .obj ([("id", .str v.id), ("version", .str v.version)] ++ unlessEmpty "authors" v.authors ++
    unlessEmpty "description" v.description ++ unlessEmpty "license" v.license ++
    unlessEmpty "license_url" v.licenseURL ++ unlessEmpty "project_url" v.projectURL ++
    [("published", .str v.published)] ++
    unlessNone "dependency_groups" (v.groups.map DependencyGroup.json))

def factsOf (d : Decoders) (spec : Nuspec) (pkg : Bytes) : HostedVersion where
  id := spec.id
  version := spec.version
  authors := spec.authors
  description := spec.description
  license := licenseOf spec
  licenseURL := spec.licenseURL
  projectURL := spec.projectURL
  published := publishedAt d pkg
  groups := dependencyGroupsOf spec

structure Push where
  pkg : Bytes
  spec : Nuspec
  specBody : Bytes
  deriving DecidableEq

/-- The part of `HandlePublish` before anything is stored. -/
def push (d : Decoders) (feed : Feed) (r : Request) : Except Failure Push :=
  if feed.externalURL = "" then
    .error (.wrapping .badRequest
      "hosted NuGet needs site.external_url: registration documents must carry absolute URLs")
  else do
    let pkg ← readPushedPackage d r
    let (spec, specBody) ← readNuspec d pkg
    if spec.id = "" || spec.version = "" then
      .error (.wrapping .badRequest "the package manifest has no id or version")
    else .ok ⟨pkg, spec, specBody⟩

/-- `publishBlob` of this module. -/
def publication (hash : Digests) (spec : Nuspec) (path : String) (body : Bytes) (mutable : Bool) :
    String × Publication :=
  ("stage " ++ path,
    { path := path
      coord := ⟨"nuget", spec.id, spec.version⟩
      body := body
      checksums := [("sha256", hash.sha256 body), ("sha512", hash.sha512 body)]
      metadata := some { rest := ("ecosystem", "NuGet") ::
        (if licenseOf spec = "" then [] else [("license", licenseOf spec)]) }
      mutable := mutable })

/-- What a push publishes: the package, its manifest, and the facts for the index. -/
def Push.publications (d : Decoders) (hash : Digests) (p : Push) : List (String × Publication) :=
  [publication hash p.spec (nupkgPath d p.spec.id p.spec.version) p.pkg false,
    publication hash p.spec (nuspecPath d p.spec.id p.spec.version) p.specBody false,
    publication hash p.spec (statePath d p.spec.id p.spec.version)
      (factsOf d p.spec p.pkg).json.marshal true]

/-- `HandlePublish`. -/
def handlePublish (d : Decoders) (hash : Digests) (feed : Feed) (r : Request) : Handling :=
  match push d feed r with
  | .error error => .fail error
  | .ok p => publishAll hash.sha256 feed.name created (p.publications d hash)

/-! ## The coordinate a package is read under -/

/-- What follows the start of the flat container in the path of a file of a package. -/
def fileRest (lid lver file : String) : String :=
  lid ++ "/" ++ lver ++ "/" ++ file

/-- An address of the flat container that `Parse` takes for a file of a package. -/
def Addressed (rest : String) : Prop :=
  ((Text.split rest '/').length = 3 ∧ (Text.split rest '/').any (fun s => s = "") = false) ∧
    (Text.contains ("v3/flat2/" ++ rest) ".." = false ∨
      Text.contains (upstreamFlat ++ rest) ".." = false)

theorem nupkgPath_eq (d : Decoders) (id version : String) :
    nupkgPath d id version = upstreamFlat ++ fileRest (d.lower id) (d.lower version)
      (d.lower id ++ "." ++ d.lower version ++ ".nupkg") := by
  simp [nupkgPath, fileRest, String.append_assoc]

theorem nuspecPath_eq (d : Decoders) (id version : String) :
    nuspecPath d id version = upstreamFlat ++ fileRest (d.lower id) (d.lower version)
      (d.lower id ++ ".nuspec") := by
  simp [nuspecPath, fileRest, String.append_assoc]

variable {p lid lver file : String} {intent : Intent}

theorem parseFlatContainer_file
    (hparse : parseFlatContainer p (fileRest lid lver file) = .ok intent) :
    intent.coord = ⟨"nuget", lid, lver⟩ ∧ (Text.split (fileRest lid lver file) '/').length = 3 ∧
      (Text.split (fileRest lid lver file) '/').any (fun s => s = "") = false := by
  have hrest : fileRest lid lver file =
      lid ++ String.singleton '/' ++ (lver ++ String.singleton '/' ++ file) := by
    have hslash : String.singleton '/' = "/" := rfl
    rw [fileRest, hslash, String.append_assoc, String.append_assoc, String.append_assoc,
      String.append_assoc, String.append_assoc]
  unfold parseFlatContainer at hparse
  dsimp only at hparse
  split at hparse
  · simp at hparse
  · rename_i hfull
    split at hparse
    · -- two segments are too few for the two slashes of the path
      rename_i id name hsegs
      have hlength := congrArg List.length hsegs
      rw [hrest, Text.split_append, Text.split_append, List.length_append, List.length_append]
        at hlength
      have hone : ∀ s, 0 < (Text.split s '/').length :=
        fun s => List.length_pos_iff.mpr (Text.split_ne_nil s '/')
      have h₁ := hone lid
      have h₂ := hone lver
      have h₃ := hone file
      simp only [List.length_cons, List.length_nil] at hlength
      omega
    · rename_i first second third hsegs
      cases hparse
      have hparts := hsegs
      rw [hrest] at hparts
      obtain ⟨rfl, rfl, rfl⟩ := Text.split_three hparts
      exact ⟨rfl, by rw [hsegs]; rfl, Bool.eq_false_iff.mpr hfull⟩
    · simp at hparse

variable {rest : String}

theorem parseFlatContainer_remotePath (hparse : parseFlatContainer p rest = .ok intent) :
    intent.remotePath = upstreamFlat ++ rest := by
  unfold parseFlatContainer at hparse
  dsimp only at hparse
  split at hparse
  · simp at hparse
  · split at hparse
    · split at hparse
      · cases hparse
        rfl
      · simp at hparse
    · cases hparse
      rfl
    · simp at hparse

theorem parseRegistration_remotePath (hparse : parseRegistration p rest = .ok intent) :
    intent.remotePath = upstreamRegistration ++ rest := by
  unfold parseRegistration at hparse
  split at hparse
  · simp at hparse
  · split at hparse
    · simp at hparse
    · cases hparse
      rfl

variable {r : ReadRequest}

section

variable (hparse : parse r = .ok intent)

include hparse

/-- What `Parse` makes of an address: one of the four kinds of path. -/
theorem parse_cases :
    intent.remotePath = "v3/index.json" ∨ Text.hasPrefix intent.remotePath "v3/query" = true ∨
      (∃ p rest, parseRegistration p rest = .ok intent) ∨
      ∃ p rest, parseFlatContainer p rest = .ok intent ∧
        (Text.contains ("v3/flat2/" ++ rest) ".." = false ∨
          Text.contains (upstreamFlat ++ rest) ".." = false) := by
  unfold parse at hparse
  dsimp only at hparse
  split at hparse
  · simp at hparse
  rename_i hclean
  simp only [Bool.or_eq_true, decide_eq_true_eq, not_or, Bool.not_eq_true] at hclean
  split at hparse
  · rename_i hindex
    cases hparse
    exact .inl hindex
  split at hparse
  · exact .inr (.inr (.inl ⟨_, _, hparse⟩))
  split at hparse
  · exact .inr (.inr (.inl ⟨_, _, hparse⟩))
  split at hparse
  · rename_i hstart
    obtain ⟨rest, hrest⟩ := Text.hasPrefix_iff.mp hstart
    rw [hrest, Text.trimPrefix_append] at hparse
    exact .inr (.inr (.inr ⟨_, rest, hparse, .inl (hrest ▸ hclean.2)⟩))
  split at hparse
  · rename_i hstart
    obtain ⟨rest, hrest⟩ := Text.hasPrefix_iff.mp hstart
    rw [hrest, Text.trimPrefix_append] at hparse
    exact .inr (.inr (.inr ⟨_, rest, hparse, .inr (hrest ▸ hclean.2)⟩))
  split at hparse
  · rename_i hquery
    cases hparse
    exact .inr (.inl hquery)
  · simp at hparse

/-- What `Parse` reads from the flat container it was asked for in the flat container. -/
theorem parse_flat (hpath : intent.remotePath = upstreamFlat ++ rest) :
    ∃ p, parseFlatContainer p rest = .ok intent ∧
      (Text.contains ("v3/flat2/" ++ rest) ".." = false ∨
        Text.contains (upstreamFlat ++ rest) ".." = false) := by
  rcases parse_cases hparse with hindex | hquery | ⟨p, other, hregistration⟩ |
    ⟨p, other, hflat, hclean⟩
  · rw [hpath] at hindex
    exact absurd hindex (Text.ne_of_not_hasPrefix (by decide) rest)
  · rw [hpath, Text.hasPrefix_append_of_not (a := upstreamFlat) (by decide) (by decide)] at hquery
    exact absurd hquery (by decide)
  · have hother := (parseRegistration_remotePath hregistration).symm.trans hpath
    have hstart := Text.hasPrefix_append_of_not (a := upstreamRegistration) (b := upstreamFlat)
      (by decide) (by decide) other
    rw [hother, Text.hasPrefix_append] at hstart
    exact absurd hstart (by decide)
  · have hother := (parseFlatContainer_remotePath hflat).symm.trans hpath
    obtain rfl := (String.append_right_inj _).mp hother
    exact ⟨p, hflat, hclean⟩

theorem parse_not_state (d : Decoders) (id version : String) :
    intent.remotePath ≠ statePath d id version := by
  have hstate : ∀ start : String, start.toList.head? = some 'v' → ∀ rest,
      start ++ rest ≠ statePath d id version := by
    intro start hstart rest h
    have hhead := congrArg (fun s : String => s.toList.head?) h
    simp [statePath, List.head?_append, hstart] at hhead
  rcases parse_cases hparse with hindex | hquery | ⟨p, rest, hregistration⟩ | ⟨p, rest, hflat, -⟩
  · rw [hindex]
    exact hstate "v3/index.json" rfl ""
  · obtain ⟨rest, hrest⟩ := Text.hasPrefix_iff.mp hquery
    rw [hrest]
    exact hstate _ rfl rest
  · rw [parseRegistration_remotePath hregistration]
    exact hstate _ rfl rest
  · rw [parseFlatContainer_remotePath hflat]
    exact hstate _ rfl rest

end

theorem parse_address {start : String} (hstart : start = "v3/flat2/" ∨ start = upstreamFlat)
    (hclean : Text.contains (start ++ rest) ".." = false) :
    parse ⟨"GET", "/" ++ (start ++ rest), ""⟩ = parseFlatContainer (start ++ rest) rest := by
  have hnonempty : start ++ rest ≠ "" := by
    rcases hstart with rfl | rfl <;> simp [upstreamFlat]
  unfold parse
  dsimp only
  rw [Text.trimPrefix_append, hclean, if_neg (by simpa using hnonempty)]
  rcases hstart with rfl | rfl
  · rw [if_neg (Text.ne_of_not_hasPrefix (by decide) rest),
      Text.hasPrefix_append_of_not (a := "v3/flat2/") (by decide) (by decide),
      Text.hasPrefix_append_of_not (a := "v3/flat2/") (by decide) (by decide),
      if_neg (by decide), if_neg (by decide), if_pos (Text.hasPrefix_append _ _),
      Text.trimPrefix_append]
  · rw [if_neg (Text.ne_of_not_hasPrefix (by decide) rest),
      Text.hasPrefix_append_of_not (a := upstreamFlat) (by decide) (by decide),
      Text.hasPrefix_append_of_not (a := upstreamFlat) (by decide) (by decide),
      Text.hasPrefix_append_of_not (a := upstreamFlat) (by decide) (by decide),
      if_neg (by decide), if_neg (by decide), if_neg (by decide),
      if_pos (Text.hasPrefix_append _ _), Text.trimPrefix_append]

theorem exists_parseFlatContainer (hthree : (Text.split rest '/').length = 3)
    (hfull : (Text.split rest '/').any (fun s => s = "") = false) :
    ∃ intent, parseFlatContainer p rest = .ok intent := by
  unfold parseFlatContainer
  dsimp only
  rw [hfull, if_neg (by decide)]
  obtain ⟨first, second, third, hsegs⟩ := List.length_eq_three.mp hthree
  rw [hsegs]
  exact ⟨_, rfl⟩

theorem exists_parse_of_addressed (haddressed : Addressed (fileRest lid lver file)) :
    ∃ r intent, parse r = .ok intent ∧
      intent.remotePath = upstreamFlat ++ fileRest lid lver file ∧
      intent.coord = ⟨"nuget", lid, lver⟩ := by
  obtain ⟨⟨hthree, hfull⟩, hclean⟩ := haddressed
  obtain ⟨start, hstart, hclean⟩ : ∃ start, (start = "v3/flat2/" ∨ start = upstreamFlat) ∧
      Text.contains (start ++ fileRest lid lver file) ".." = false := by
    rcases hclean with hclean | hclean
    · exact ⟨_, .inl rfl, hclean⟩
    · exact ⟨_, .inr rfl, hclean⟩
  obtain ⟨intent, hintent⟩ :=
    exists_parseFlatContainer (p := start ++ fileRest lid lver file) hthree hfull
  refine ⟨_, intent, (parse_address hstart hclean).trans hintent, ?_, ?_⟩
  · exact parseFlatContainer_remotePath hintent
  · exact (parseFlatContainer_file hintent).1

/-- Every address of a file is read under one coordinate. -/
theorem read_under_iff {coord : PackageCoordinate} :
    (∀ r intent, parse r = .ok intent →
        intent.remotePath = upstreamFlat ++ fileRest lid lver file → intent.coord = coord) ↔
      coord = ⟨"nuget", lid, lver⟩ ∨ ¬ Addressed (fileRest lid lver file) := by
  constructor
  · intro hread
    by_cases haddressed : Addressed (fileRest lid lver file)
    · obtain ⟨r, intent, hparse, hpath, hcoord⟩ := exists_parse_of_addressed haddressed
      exact .inl ((hread r intent hparse hpath).symm.trans hcoord)
    · exact .inr haddressed
  · intro hcase r intent hparse hpath
    obtain ⟨p, hflat, hclean⟩ := parse_flat hparse hpath
    obtain ⟨hcoord, hlength, hfull⟩ := parseFlatContainer_file hflat
    rcases hcase with hsame | hnot
    · exact hcoord.trans hsame.symm
    · exact absurd ⟨⟨hlength, hfull⟩, hclean⟩ hnot

/--
Every address of a published package is read under the coordinate of the publish exactly
when lower-casing changes neither its id nor its version, or no address reaches the
package or its manifest.
-/
theorem push_coordinates_agree_iff (d : Decoders) (hash : Digests) (p : Push) :
    (∀ item ∈ p.publications d hash, ∀ r intent, parse r = .ok intent →
        intent.remotePath = item.2.path → intent.coord = item.2.coord) ↔
      d.lower p.spec.id = p.spec.id ∧ d.lower p.spec.version = p.spec.version ∨
        ¬ Addressed (fileRest (d.lower p.spec.id) (d.lower p.spec.version)
            (d.lower p.spec.id ++ "." ++ d.lower p.spec.version ++ ".nupkg")) ∧
          ¬ Addressed (fileRest (d.lower p.spec.id) (d.lower p.spec.version)
            (d.lower p.spec.id ++ ".nuspec")) := by
  have hstate : ∀ r intent, parse r = .ok intent →
      intent.remotePath = statePath d p.spec.id p.spec.version →
      intent.coord = ⟨"nuget", p.spec.id, p.spec.version⟩ :=
    fun r intent hparse hpath => absurd hpath (parse_not_state hparse d _ _)
  simp only [Push.publications, publication, List.mem_cons, List.not_mem_nil, or_false,
    forall_eq_or_imp, forall_eq, nupkgPath_eq, nuspecPath_eq, read_under_iff,
    PackageCoordinate.mk.injEq, true_and]
  rw [← and_assoc, and_iff_left hstate, ← or_and_left, @eq_comm _ p.spec.id,
    @eq_comm _ p.spec.version]

def labelled (id version : String) : Decoders where
  mediaType _ := none
  parts _ := .ok ⟨[], none⟩
  unzip _ := .ok [⟨"package.nuspec", 0, .ok (.ok [1])⟩]
  nuspec _ := .ok { id := id, version := version }
  lower s := String.ofList (s.toList.map Char.toLower)

def packagePut : Request :=
  ⟨"PUT", validMethod_put, "/api/v2/package".toUTF8.toList, [], noHeaders, [1]⟩

/-- A package with a capital in its id is published, and every address of it is read under
another coordinate. -/
theorem capital_read_under_other_name :
    let d := labelled "Contoso" "1.0.0"
    let sha256 : Bytes → String := fun _ => "d"
    let core := quietCore sha256
    let feed : Feed := { name := "hub", format := "nuget", externalURL := "https://r" }
    Accepts core "hub" core.publish (handlePublish d ⟨sha256, sha256⟩ feed packagePut) {} ∧
      (∃ p, push d feed packagePut = .ok p ∧ ∃ item ∈ p.publications d ⟨sha256, sha256⟩,
        item.2.path = "v3-flatcontainer/contoso/1.0.0/contoso.1.0.0.nupkg" ∧
          item.2.coord = ⟨"nuget", "Contoso", "1.0.0"⟩) ∧
      (parse ⟨"GET", "/v3/flat2/contoso/1.0.0/contoso.1.0.0.nupkg", ""⟩).toOption.map
          (fun intent => (intent.remotePath, intent.coord)) =
        some ("v3-flatcontainer/contoso/1.0.0/contoso.1.0.0.nupkg",
          ⟨"nuget", "contoso", "1.0.0"⟩) := by
  refine ⟨accepts_of_answers ?_, ⟨_, rfl, ?_⟩, ?_⟩ <;> decide +kernel

end FondacoFormal.Formats.Nuget
