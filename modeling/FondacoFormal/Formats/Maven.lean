import FondacoFormal.Api.Intent
import FondacoFormal.Library.Sorting
import FondacoFormal.Library.Xml

/-!
# Maven repositories

The Maven 2 layout: artifacts under group, artifact and version, checksums beside them, and
`maven-metadata.xml` for what exists.
-/

namespace FondacoFormal.Formats.Maven

open Library Library.Xml State Api Server

/-! ## Versions -/

def isSeparator (c : Char) : Bool :=
  c = '.' || c = '-' || c = '_' || c = '+'

/-- `splitVersion`. -/
def splitVersion (v : String) : List String :=
  ((v.toList.splitOnP isSeparator).filter (· ≠ [])).map String.ofList

/-- `atoi`, with the overflow of a 64-bit integer. -/
def atoi (s : String) : Option Int :=
  if s = "" || s.toList.any (fun c => !c.isDigit) then none
  else some (s.toList.foldl (fun n c => (n * 10 + (c.toNat - 48 : Int)).bmod (2 ^ 64)) 0)

def compareTexts (x y : String) (xIsNum yIsNum : Bool) : Ordering :=
  if x = y then .eq
  else if x = "" then if yIsNum then .lt else .gt
  else if y = "" then if xIsNum then .gt else .lt
  else if x < y then .lt
  else .gt

/-- `compareVersions` on one pair of segments. -/
def compareSegments (x y : String) : Ordering :=
  match atoi x, atoi y with
  | some xn, some yn => compare xn yn
  | xn, yn => compareTexts x y xn.isSome yn.isSome

/-- `compareVersions`. -/
def compareVersions (a b : String) : Ordering :=
  (List.zipWithAll (fun x y => compareSegments (x.getD "") (y.getD "")) (splitVersion a)
    (splitVersion b)).foldr Ordering.then .eq

/-- `byVersion.Less`. -/
def byVersion (a b : String) : Bool :=
  compareVersions a b = .lt

/-- `snapshotSuffix`. -/
def snapshotSuffix : String := "-SNAPSHOT"

/-- `isSnapshotVersion`. -/
def isSnapshotVersion (v : String) : Bool :=
  Text.hasSuffix v snapshotSuffix

/-- `latestRelease`. -/
def latestRelease (sorted : List String) : String :=
  (sorted.reverse.find? fun v => !isSnapshotVersion v).getD ""

/-! ## File names of builds -/

/-- A match of `timestampedRE`: its groups and its whole text. -/
structure Stamp where
  timestamp : List Char
  build : List Char
  text : List Char
  deriving DecidableEq

def buildAt (timestamp rest : List Char) : Option Stamp :=
  let build := rest.takeWhile Char.isDigit
  let text := '-' :: timestamp ++ '-' :: build
  if build = [] then none
  else
    match rest.dropWhile Char.isDigit with
    | [] => some ⟨timestamp, build, text⟩
    | c :: _ => if c = '.' || c = '-' then some ⟨timestamp, build, text ++ [c]⟩ else none

def stampAt : List Char → Option Stamp
  | '-' :: rest =>
    let timestamp := rest.take 15
    if timestamp.length = 15 && (timestamp.take 8).all Char.isDigit &&
        timestamp[8]? = some '.' && (timestamp.drop 9).all Char.isDigit then
      match rest.drop 15 with
      | '-' :: more => buildAt timestamp more
      | _ => none
    else none
  | _ => none

/-- `timestampedRE.FindStringSubmatch`: the leftmost match. -/
def findStamp : List Char → Option Stamp
  | [] => none
  | c :: rest => (stampAt (c :: rest)).orElse fun _ => findStamp rest

/-- `timestampedRE.MatchString`. -/
def isTimestamped (file : String) : Bool :=
  (findStamp file.toList).isSome

/-! ## Reading -/

/-- `checksumExts`. -/
def checksumExts : List String := ["sha512", "sha256", "sha1", "md5"]

def splitChecksum (p : String) : String × String :=
  match checksumExts.find? fun ext => Text.hasSuffix p ("." ++ ext) with
  | some ext => (ext, Text.trimSuffix p ("." ++ ext))
  | none => ("", p)

/-- `contentTypeFor`. -/
def contentTypeFor (file wantChecksum : String) : String :=
  if wantChecksum ≠ "" then "text/plain"
  else if [".jar", ".war", ".ear"].any (Text.hasSuffix file) then "application/java-archive"
  else if [".pom", ".xml"].any (Text.hasSuffix file) then "application/xml"
  else "application/octet-stream"

def metadataCoordinate (dirs : List String) : PackageCoordinate × Int :=
  match dirs.reverse with
  | version :: artifact :: group :: above =>
    if isSnapshotVersion version then
      (⟨"maven", Text.join (group :: above).reverse "." ++ ":" ++ artifact, version⟩, 60)
    else
      (⟨"maven", Text.join (artifact :: group :: above).reverse "." ++ ":" ++ version, ""⟩, 300)
  | [artifact, group] => (⟨"maven", group ++ ":" ++ artifact, ""⟩, 300)
  | _ => (⟨"maven", dirs.headD "", ""⟩, 300)

/-- `parseMetadata`. -/
def parseMetadata (segs : List String) (base wantChecksum : String) : Except Failure Intent :=
  let dirs := segs.dropLast
  if dirs = [] then .error (.wrapping .notFound "metadata path has no group")
  else
    .ok {
      kind := .metadata
      coord := (metadataCoordinate dirs).1
      cacheTTL := (metadataCoordinate dirs).2
      remotePath := base
      wantChecksum := wantChecksum
      contentType := contentTypeFor "maven-metadata.xml" wantChecksum }

/-- `parseArtifact`. -/
def parseArtifact (segs : List String) (base wantChecksum : String) : Except Failure Intent :=
  match segs.reverse with
  | file :: version :: artifact :: group :: above =>
    let intent : Intent := {
      kind := .artifact
      coord := ⟨"maven", Text.join (group :: above).reverse "." ++ ":" ++ artifact, version⟩
      remotePath := base
      remoteChecksum := ⟨"sha1", base ++ ".sha1"⟩
      wantChecksum := wantChecksum
      contentType := contentTypeFor file wantChecksum }
    if isSnapshotVersion version && !isTimestamped file then
      -- the alias of the newest build
      .ok { intent with kind := .metadata, cacheTTL := 60, remoteChecksum := {} }
    else .ok intent
  | _ => .error (.wrapping .notFound ("not a maven artifact path: " ++ base.quote))

/-- `Parse`. -/
def parse (r : ReadRequest) : Except Failure Intent :=
  let p := Text.trimPrefix r.path "/"
  if p = "" then .error (.wrapping .notFound "empty path")
  else
    let (wantChecksum, base) := splitChecksum p
    let segs := Text.split base '/'
    if segs.any fun s => s = "" || s = "." || s = ".." then
      .error (.wrapping .notFound ("invalid path " ++ p.quote))
    else if segs.getLast? = some "maven-metadata.xml" then parseMetadata segs base wantChecksum
    else parseArtifact segs base wantChecksum

/-! ## Metadata documents -/

/-- `mavenMetadata`. -/
structure MavenMetadata where
  groupID : String := ""
  artifactID : String := ""
  latest : String := ""
  release : String := ""
  versions : List String := []
  lastUpdated : String := ""
  deriving DecidableEq

/-- What `versioning` holds. -/
def versioning (doc : Element) : List Element :=
  under "versioning" doc.children

/-- The fields `xml.Unmarshal` finds for `mavenMetadata`. -/
def fieldsOf (doc : Element) : MavenMetadata where
  groupID := value "groupId" doc.children
  artifactID := value "artifactId" doc.children
  latest := value "latest" (versioning doc)
  release := value "release" (versioning doc)
  versions := values "version" (under "versions" (versioning doc))
  lastUpdated := value "lastUpdated" (versioning doc)

/-- `xml.Unmarshal` into `mavenMetadata`. -/
def unmarshal (doc : Element) : Except String MavenMetadata :=
  if doc.name ≠ "metadata" then
    .error ("expected element type <metadata> but have <" ++ doc.name ++ ">")
  else .ok (fieldsOf doc)

/-- The element `xml.MarshalIndent` prints. -/
def MavenMetadata.marshal (m : MavenMetadata) : Element :=
  branch "metadata" [
    leaf "groupId" m.groupID,
    leaf "artifactId" m.artifactID,
    branch "versioning" [
      leaf "latest" m.latest,
      leaf "release" m.release,
      branch "versions" (m.versions.map (leaf "version")),
      leaf "lastUpdated" m.lastUpdated]]

/-! ## Groups -/

/-- `MergeableIntent`. -/
def mergeableIntent (intent : Intent) : Bool :=
  intent.kind = .metadata && intent.wantChecksum = "" &&
    Text.hasSuffix intent.remotePath "maven-metadata.xml"

section Merge

variable (decode : Bytes → Except String Element) (sorter : Sorter byVersion)

/-- The comparison `isNewerVersion` makes by sorting two versions. -/
def sortsAfter (a b : String) : Bool :=
  (sorter.sort [a, b])[1]? = some a

/-- `isNewerVersion`. -/
def isNewerVersion (a b : String) : Bool :=
  b = "" || sortsAfter sorter a b

/-- What `Merge` has gathered so far. -/
structure Gathered where
  groupID : String := ""
  artifactID : String := ""
  all : List String := []
  lastUpdated : String := ""
  release : String := ""

def addVersion (all : List String) (v : String) : List String :=
  if v = "" ∨ v ∈ all then all else all ++ [v]

def gather (g : Gathered) (doc : MavenMetadata) : Gathered where
  groupID := if g.groupID = "" then doc.groupID else g.groupID
  artifactID := if g.groupID = "" then doc.artifactID else g.artifactID
  all := doc.versions.foldl addVersion g.all
  lastUpdated := if g.lastUpdated < doc.lastUpdated then doc.lastUpdated else g.lastUpdated
  release := if doc.release ≠ "" && isNewerVersion sorter doc.release g.release then doc.release
    else g.release

def Gathered.merged (g : Gathered) : MavenMetadata :=
  let all := sorter.sort g.all
  { groupID := g.groupID
    artifactID := g.artifactID
    latest := all.getLast?.getD ""
    release := if latestRelease all = "" then g.release else latestRelease all
    versions := all
    lastUpdated := g.lastUpdated }

/-- The document of a part, as `xml.Unmarshal` reads it. -/
def readPart (part : GroupPart) : Except Failure MavenMetadata :=
  match decode part.body >>= unmarshal with
  | .ok doc => .ok doc
  | .error error => .error ⟨none, "parse maven-metadata.xml from " ++ part.feed ++ ": " ++ error⟩

/-- The document `Merge` prints. -/
def mergeParts (parts : List GroupPart) : Except Failure MavenMetadata := do
  let docs ← parts.mapM (readPart decode)
  let g := docs.foldl (gather sorter) {}
  if g.all = [] then .error (.wrapping .notFound "no member of the group lists any version")
  else .ok (g.merged sorter)

/-- `Merge`. -/
def merge (_ : Feed) (_ : Intent) (parts : List GroupPart) : Except Failure Bytes :=
  (mergeParts decode sorter parts).map fun merged => document merged.marshal

end Merge

end FondacoFormal.Formats.Maven
