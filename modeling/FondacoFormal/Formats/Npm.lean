import FondacoFormal.Formats.Documents
import FondacoFormal.Formats.Semver

/-!
# npm registries

A package's document lists its versions, each with the URL of its tarball, and its dist-tags;
the dist-tags are also a document of their own.
-/

namespace FondacoFormal.Formats.Npm

open Library Api Server

/-! ## Reading -/

/-- `searchPath`. -/
def searchPath : String := "-/v1/search"

/-- `shortName`: the package name without its scope. -/
def shortName (pkg : String) : String :=
  match Text.cut pkg '/' with
  | some (_, rest) => rest
  | none => pkg

/-- `versionFromTarball`. -/
def versionFromTarball (pkg file : String) : String :=
  let base := Text.trimSuffix file ".tgz"
  let found := [pkg ++ "-", shortName pkg ++ "-"].find? fun start =>
    Text.hasPrefix base start && Text.trimPrefix base start ≠ ""
  match found with
  | some start => Text.trimPrefix base start
  | none => ""

/-- `validPackageName`. -/
def validPackageName (name : String) : Bool :=
  if name = "" || Text.hasPrefix name "." || Text.contains name ".." then false
  else if Text.hasPrefix name "@" then
    match Text.cut (Text.trimPrefix name "@") '/' with
    | some (scope, rest) => scope ≠ "" && rest ≠ "" && !Text.holds rest '/'
    | none => false
  else !Text.holds name '/'

def parseDistTags (raw rest : String) : Except Failure Intent :=
  match Text.lastCut rest '/' with
  | some (name, "dist-tags") =>
    match pathUnescape name with
    | none => .error (.wrapping .notFound ("invalid package name " ++ name.quote))
    | some pkg =>
      .ok {
        kind := .metadata
        coord := ⟨"npm", pkg, ""⟩
        cacheTTL := 300
        remotePath := "-/package/" ++ pkg ++ "/dist-tags"
        contentType := "application/json" }
  | _ => .error (.wrapping .notFound ("unsupported path " ++ raw.quote))

def parseTarball (decoded pkg file : String) : Except Failure Intent :=
  if file = "" || Text.holds file '/' || !validPackageName pkg then
    .error (.wrapping .notFound ("invalid tarball path " ++ decoded.quote))
  else
    .ok {
      kind := .artifact
      coord := ⟨"npm", pkg, versionFromTarball pkg file⟩
      remotePath := decoded
      contentType := "application/octet-stream" }

def parseRoot (pkg : String) : Except Failure Intent :=
  if validPackageName pkg then
    .ok {
      kind := .metadata
      coord := ⟨"npm", pkg, ""⟩
      cacheTTL := 300
      remotePath := pkg
      contentType := "application/json" }
  else .error (.wrapping .notFound ("invalid package name " ++ pkg.quote))

/-- `Parse` of a request with this `EscapedPath` within the feed and this query. -/
def parse (escapedPath rawQuery : String) : Except Failure Intent :=
  let raw := Text.trimPrefix escapedPath "/"
  if raw = "" then .error (.wrapping .notFound "empty path")
  else
    match pathUnescape raw with
    | none => .error (.wrapping .notFound ("invalid path " ++ raw.quote))
    | some decoded =>
      if Text.contains decoded ".." then
        .error (.wrapping .notFound ("invalid path " ++ decoded.quote))
      else if raw = searchPath then
        .ok {
          kind := .search
          coord := ⟨"npm", "search", ""⟩
          cacheTTL := 60
          remotePath := searchPath
          remoteQuery := rawQuery
          contentType := "application/json" }
      else if Text.hasPrefix raw "-/package/" then
        parseDistTags raw (Text.trimPrefix raw "-/package/")
      else
        match Text.breakAt "/-/".toList decoded.toList with
        | some (c :: before, after) =>
          parseTarball decoded (String.ofList (c :: before)) (String.ofList after)
        | _ => parseRoot decoded

/-! ## Merging -/

/-- `feedBase`. -/
def feedBase (feed : Feed) : String :=
  mountBase "npm" feed

/-- `repointTarball`. -/
def repointTarball (tarball member groupBase : String) : String :=
  if member = "" then tarball else (repoint "npm" tarball member groupBase).getD tarball

section Module

variable (lib : JsonLib) (sorter : Sorter Semver.less)

/-- `highestVersion`; the versions come in the order of a map. -/
def highestVersion (versions : lib.Map) : String :=
  (sorter.sort (versions.map Prod.fst)).getLast?.getD ""

/-- The maps that `mergePackument` fills. -/
structure Gathered where
  merged : lib.Map := []
  versions : lib.Map := []
  times : lib.Map := []
  distTags : lib.Map := []
  origin : List (String × String) := []

def mapAt (doc : lib.Map) (field : String) : lib.Map :=
  ((doc.lookup field).bind Value.asMap).getD []

def addVersion (member : String) (g : Gathered lib) (entry : String × lib.Any) : Gathered lib :=
  if (g.versions.lookup entry.1).isSome then g
  else
    { g with
      versions := Fields.set entry.1 entry.2 g.versions
      origin := Fields.set entry.1 member g.origin }

def described (doc : lib.Map) : lib.Map :=
  Fields.erase "dist-tags" (Fields.erase "time" (Fields.erase "versions" doc))

def addDocument (g : Gathered lib) (member : String × lib.Any) : Gathered lib :=
  let doc := member.2.fields
  let listed := (mapAt lib doc "versions").foldl (addVersion lib member.1) g
  { listed with
    merged := Fields.complete g.merged (described lib doc)
    times := Fields.complete g.times (mapAt lib doc "time")
    distTags := Fields.complete g.distTags (mapAt lib doc "dist-tags") }

def repointEntry (member groupBase : String) : lib.Any → lib.Any
  | .obj entry =>
    match archiveURL lib "tarball" entry with
    | none => .obj entry
    | some (dist, tarball) =>
      .obj (setArchiveURL lib "tarball" entry dist (repointTarball tarball member groupBase))
  | value => value

def Gathered.document (g : Gathered lib) (groupBase : String) : lib.Map :=
  let versions := g.versions.map fun entry =>
    (entry.1, repointEntry lib ((g.origin.lookup entry.1).getD "") groupBase entry.2)
  let distTags := Fields.set "latest" (.str (highestVersion lib sorter versions)) g.distTags
  Fields.set "dist-tags" (.obj distTags)
    (Fields.set "time" (.obj g.times) (Fields.set "versions" (.obj versions) g.merged))

def readPart (part : GroupPart) : Except Failure (String × lib.Any) :=
  (lib.readMap ("parse npm package document from " ++ part.feed) part.body).map
    fun doc => (part.feed, doc)

/-- `mergePackument`. -/
def mergePackument (feed : Feed) (parts : List GroupPart) : Except Failure Bytes := do
  let docs ← parts.mapM (readPart lib)
  let g := docs.foldl (addDocument lib) {}
  if g.versions = [] then
    .error (.wrapping .notFound "no member of the group has any version of this package")
  else .ok (lib.marshal (.obj (g.document lib sorter (feedBase feed))))

def resultName (result : lib.Any) : String :=
  ((mapAt lib result.fields "package").lookup "name").bind Value.asText |>.getD ""

/-- `mergeSearch`. -/
def mergeSearch (parts : List GroupPart) : Except Failure Bytes :=
  mergeSearchBy lib "objects" (resultName lib) parts

/-- `Merge`. -/
def merge (feed : Feed) (intent : Intent) (parts : List GroupPart) : Except Failure Bytes :=
  if intent.kind = .search then mergeSearch lib parts else mergePackument lib sorter feed parts

end Module

end FondacoFormal.Formats.Npm
