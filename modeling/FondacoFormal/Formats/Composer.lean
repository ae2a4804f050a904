import FondacoFormal.Formats.Documents

/-!
# Composer repositories

The root manifest (`packages.json`) says where a repository's documents are and, if it
can, everything it holds; the document of a package lists its versions.  A group answers
both with a document of its own.
-/

namespace FondacoFormal.Formats.Composer

open Library Api Server

/-! ## URLs -/

/-- What `url.Parse` says of a URL. -/
structure Url where
  isAbs : Bool
  escapedPath : String

/-- `searchPath`. -/
def searchPath : String := "search.json"

/-- The start of the path of a rewritten archive: `distPrefix`. -/
def distStart : String := "dists/"

/-- The digits of `base64.RawURLEncoding`. -/
def base64Digit (n : Nat) : Char :=
  if n < 26 then Char.ofNat (65 + n)
  else if n < 52 then Char.ofNat (71 + n)
  else if n < 62 then Char.ofNat (n - 4)
  else if n = 62 then '-'
  else '_'

/-- `base64.RawURLEncoding`: six bits to a digit, without padding. -/
def base64 : List UInt8 → List Char
  | [] => []
  | [a] => [base64Digit (a.toNat / 4), base64Digit (a.toNat % 4 * 16)]
  | [a, b] =>
    [base64Digit (a.toNat / 4), base64Digit (a.toNat % 4 * 16 + b.toNat / 16),
      base64Digit (b.toNat % 16 * 4)]
  | a :: b :: c :: rest =>
    base64Digit (a.toNat / 4) :: base64Digit (a.toNat % 4 * 16 + b.toNat / 16) ::
      base64Digit (b.toNat % 16 * 4 + c.toNat / 64) :: base64Digit (c.toNat % 64) :: base64 rest

/-- `encodeDistLocation`. -/
def encodeDistLocation (distURL : String) : String :=
  String.ofList (base64 (Text.encode distURL.toList))

/-- `path.Base`. -/
def lastElement (path : String) : String :=
  if path = "" then "."
  else
    let last := (path.toList.reverse.dropWhile (· = '/')).takeWhile (· ≠ '/')
    if last = [] then "/" else String.ofList last.reverse

/-- `feedBase`. -/
def feedBase (feed : Feed) : String :=
  mountBase "composer" feed

section Module

variable (lib : JsonLib) (parseURL : String → Except String Url)

/-- `rewriteDistURL`. -/
def rewriteDistURL (base distURL : String) : Except Failure String :=
  match parseURL distURL with
  | .error cause =>
    .error ⟨none, "dist url " ++ distURL.quote ++ " is not absolute: " ++ cause⟩
  | .ok u =>
    if !u.isAbs then
      .error ⟨none, "dist url " ++ distURL.quote ++ " is not absolute: %!w(<nil>)"⟩
    else
      let file := lastElement u.escapedPath
      if file = "" || file = "." || file = "/" then
        .error ⟨none, "dist url " ++ distURL.quote ++ " has no file name"⟩
      else
        let file := if Text.hasSuffix file ".zip" then file else file ++ ".zip"
        .ok (base ++ "/" ++ distStart ++ encodeDistLocation distURL ++ "/" ++ file)

/-! ## `RewriteMetadata` -/

def rewriteVersion (base : String) : lib.Any → Except Failure lib.Any
  | .obj version =>
    match archiveURL lib "url" version with
    | none => .ok (.obj version)
    | some (dist, url) =>
      (rewriteDistURL parseURL base url).map fun url =>
        .obj (setArchiveURL lib "url" version dist url)
  | item => .ok item

def rewriteVersions (base : String) : lib.Any → Except Failure lib.Any
  | .arr versions => (versions.mapM (rewriteVersion lib parseURL base)).map .arr
  | raw => .ok raw

def rewritePackages (base : String) (packages : lib.Map) : Except Failure lib.Map :=
  packages.mapM fun entry => (rewriteVersions lib parseURL base entry.2).map fun v => (entry.1, v)

def replaceField (key : String) (value : lib.Any) (doc : lib.Map) : lib.Map :=
  if (doc.lookup key).isSome then Fields.set key value doc else doc

/-- What a root manifest says of endpoints: those of this registry, and none it does not serve. -/
def rewriteRoot (base : String) (doc : lib.Map) : lib.Map :=
  let pointed := replaceField lib "metadata-url" (.str (base ++ "/p2/%package%.json")) doc
  let served := Fields.erase "list" (Fields.erase "provider-includes"
    (Fields.erase "providers-url" pointed))
  replaceField lib "search" (.str (base ++ "/" ++ searchPath ++ "?q=%query%&type=%type%")) served

def isRoot (doc : lib.Map) : Bool :=
  (doc.lookup "packages").isSome ||
    match doc.lookup "metadata-url" with
    | none | some .null => false
    | some _ => true

def pointed (base : String) (doc : lib.Map) : lib.Map :=
  if isRoot lib doc then rewriteRoot lib base doc else doc

/-- `RewriteMetadata` on the decoded document. -/
def rewriteDocument (base : String) : lib.Any → Except Failure lib.Any
  | .obj doc =>
    match (pointed lib base doc).lookup "packages" with
    | some (.obj packages) =>
      (rewritePackages lib parseURL base packages).map fun packages =>
        .obj (Fields.set "packages" (.obj packages) (pointed lib base doc))
    | _ => .ok (.obj (pointed lib base doc))
  | doc => .ok doc

/-- `RewriteMetadata`. -/
def rewriteMetadata (feed : Feed) (body : Bytes) : Except Failure Bytes := do
  let doc ← lib.readMap "parse composer metadata" body
  let doc ← rewriteDocument lib parseURL (feedBase feed) doc
  .ok (lib.marshal doc)

/-! ## The root manifest of a group -/

/-- `inventoryKeys`. -/
def inventoryKeys : List String :=
  ["available-packages", "available-package-patterns"]

def readRoot (part : GroupPart) : Except Failure lib.Any :=
  lib.readMap ("parse composer root manifest from " ++ part.feed) part.body

/-- One member's list under a key, after the earlier ones: the union, and whether each had one. -/
def addListed (key : String) (state : List String × Bool) (member : lib.Any) :
    List String × Bool :=
  match member.fields.lookup key with
  | some (.arr listed) => (state.1 ++ listed.filterMap Value.asText, state.2)
  | _ => (state.1, false)

/-- `slices.Compact`. -/
def compact : List String → List String
  | [] => []
  | [name] => [name]
  | name :: next :: rest =>
    if name = next then compact (next :: rest) else name :: compact (next :: rest)

/-- A `[]string`; a slice without elements is `nil`. -/
def listValue (names : List String) : lib.Any :=
  if names = [] then .null else .arr (names.map .str)

def reconcile (members : List lib.Any) (doc : lib.Map) (key : String) : lib.Map :=
  let (names, complete) := members.foldl (addListed lib key) ([], true)
  if complete then
    Fields.set key (listValue lib (compact (names.insertionSort (· ≤ ·)))) doc
  else Fields.erase key doc

/-- `mergeInventory`. -/
def mergeInventory (doc : lib.Map) (members : List lib.Any) : lib.Map :=
  inventoryKeys.foldl (reconcile lib members) doc

/-- `mergeRoot` on the decoded documents; `nil` lists nothing, so nothing is set in it. -/
def mergedRoot (members : List lib.Any) : lib.Any → lib.Any
  | .obj doc => .obj (mergeInventory lib doc members)
  | doc => doc

/-- `mergeRoot`; without a part the index panics. -/
def mergeRoot (feed : Feed) : List GroupPart → Except Failure Bytes
  | [] => .error ⟨none, "index out of range"⟩
  | first :: rest => do
    let doc ← readRoot lib first
    let members ← (first :: rest).mapM (readRoot lib)
    rewriteMetadata lib parseURL feed (lib.marshal (mergedRoot lib members doc))

end Module

/-! ## Declared metadata -/

/-- `foldName` of `encoding/json`, as far as it leads to names of ASCII letters. -/
def foldName (name : String) : String :=
  String.ofList (name.toList.map fun c =>
    -- the long s and the Kelvin sign
    if c.toNat = 0x17f then 's' else if c.toNat = 0x212a then 'k' else c.toLower)

/-- The values `json.Unmarshal` fills a struct's field with, one after the other. -/
def filling (name : String) (fields : List (String × Json)) : List Json :=
  (fields.filter fun field => foldName field.1 = name).map Prod.snd

/-- A string is filled; `null` leaves it as it is. -/
def fillText (text : Option String) : Json → Option String
  | .null => text
  | .str s => text.map fun _ => s
  | _ => none

/-- A list is filled in place: `null` in it leaves the text that was there. -/
def fillTexts (texts : Option (List String)) : Json → Option (List String)
  | .null => texts.map fun _ => []
  | .arr items => texts.bind fun texts => items.zipIdx.mapM fun (item, i) =>
      fillText (some (texts.getD i "")) item
  | _ => none

def fillDist (shasum : Option String) : Json → Option String
  | .null => shasum
  | .obj fields => (filling "shasum" fields).foldl fillText shasum
  | _ => none

/-- A version of `packageDoc`. -/
structure VersionDoc where
  version : String := ""
  license : List String := []
  time : String := ""
  shasum : String := ""
  deriving DecidableEq, Repr

def readFields (values : String → List Json) : Option VersionDoc := do
  let version ← (values "version").foldl fillText (some "")
  let license ← (values "license").foldl fillTexts (some [])
  let time ← (values "time").foldl fillText (some "")
  let shasum ← (values "dist").foldl fillDist (some "")
  pure ⟨version, license, time, shasum⟩

def readVersion : Json → Option VersionDoc
  | .null => some {}
  | .obj fields => readFields fun key => filling key fields
  | _ => none

def readVersions : Json → Option (List VersionDoc)
  | .null => some []
  | .arr items => items.mapM readVersion
  | _ => none

abbrev PackageDoc : Type := List (String × List VersionDoc)

def fillPackages (packages : Option PackageDoc) : Json → Option PackageDoc
  | .null => packages.map fun _ => []
  | .obj fields => do
    let entries ← fields.mapM fun field => (readVersions field.2).map (field.1, ·)
    -- an entry that comes later is found first
    packages.map (entries.reverse ++ ·)
  | _ => none

/-- `json.Unmarshal` into `packageDoc`. -/
def readPackageDoc (body : Bytes) : Option PackageDoc :=
  match Json.unmarshal body with
  | some .null => some []
  | some (.obj fields) => (filling "packages" fields).foldl fillPackages (some [])
  | _ => none

def licenseOf (license : List String) : State.StringMap :=
  if license = [] then [] else [("license", Text.join license " OR ")]

def publishedAt (time : String) : State.StringMap :=
  if time = "" then [] else [("published_at", time)]

def checksumOf (shasum : String) : State.StringMap :=
  if shasum = "" then [] else [("checksum", "sha1:" ++ Text.lower shasum)]

/-- `ExtractMetadata`; `cause` is the text of the error of `json.Unmarshal`. -/
def extractMetadata (cause : Bytes → String) (coord : PackageCoordinate) (body : Bytes) :
    Except Failure State.StringMap :=
  match readPackageDoc body with
  | none => .error ⟨none, "parse composer package document: " ++ cause body⟩
  | some packages =>
    let chosen := ((packages.lookup coord.name).getD []).find? fun v =>
      coord.version = "" || v.version = coord.version
    .ok (("ecosystem", "Packagist") ::
      match chosen with
      | none => []
      | some v => licenseOf v.license ++ publishedAt v.time ++
        if coord.version = "" then [] else checksumOf v.shasum)

end FondacoFormal.Formats.Composer
