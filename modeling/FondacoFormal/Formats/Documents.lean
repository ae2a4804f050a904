import FondacoFormal.Api.Intent
import FondacoFormal.Library.Values

/-!
# Documents of the JSON formats

What the modules whose documents are JSON share: reading a member's document, the base
of a feed's URLs, and the merging of search results.
-/

namespace FondacoFormal.Formats

open Library Api Server

/-- `encoding/json` as the modules use it. -/
structure JsonLib where
  numbers : Numbers
  /-- The text of the error of `json.Unmarshal`. -/
  cause : Bytes → String

abbrev JsonLib.Any (lib : JsonLib) : Type :=
  Value lib.numbers.Number

/-- A `map[string]any`. -/
abbrev JsonLib.Map (lib : JsonLib) : Type :=
  List (String × lib.Any)

namespace JsonLib

variable (lib : JsonLib)

/-- `json.Unmarshal` into a map, with the context of its error. -/
def readMap (context : String) (body : Bytes) : Except Failure lib.Any :=
  match Value.unmarshalMap lib.numbers body with
  | some doc => .ok doc
  | none => .error ⟨none, context ++ ": " ++ lib.cause body⟩

/-- `json.Marshal`. -/
def marshal (value : lib.Any) : Bytes :=
  Value.marshal lib.numbers value

end JsonLib

def plainLib : JsonLib where
  numbers := .literal
  cause _ := "unexpected end of JSON input"

def byteText (bytes : Bytes) : String :=
  String.ofList (bytes.map fun b => Char.ofNat b.toNat)

/-- `url.PathUnescape`. -/
def pathUnescape (s : String) : Option String :=
  (unescape (Text.encode s.toList)).map byteText

/-- `feedBase`: the public base of a feed's URLs. -/
def mountBase (format : String) (feed : Feed) : String :=
  if feed.externalURL = "" then "/" ++ format ++ "/" ++ feed.name
  else Text.trimSuffix feed.externalURL "/" ++ "/" ++ format ++ "/" ++ feed.name

/-- The part of a member's URL after the member's mount, moved under the base of the group. -/
def repoint (format url member groupBase : String) : Option String :=
  (Text.breakAt ("/" ++ format ++ "/" ++ member ++ "/").toList url.toList).map fun parts =>
    groupBase ++ "/" ++ String.ofList parts.2

/-! ## Archives -/

section Archives

variable (lib : JsonLib)

/-- The URL of the archive of a version, under a field of its `dist`, unless it has none. -/
def archiveURL (field : String) (version : lib.Map) : Option (lib.Map × String) :=
  match version.lookup "dist" with
  | some (.obj dist) =>
    match dist.lookup field with
    | some (.str url) => if url = "" then none else some (dist, url)
    | _ => none
  | _ => none

/-- `dist[field] = url`. -/
def setArchiveURL (field : String) (version dist : lib.Map) (url : String) : lib.Map :=
  Fields.set "dist" (.obj (Fields.set field (.str url) dist)) version

variable {lib} {version dist : lib.Map}

theorem canonical_archiveURL {field url : String} (hversion : Value.Canonical (.obj version))
    (hdist : archiveURL lib field version = some (dist, url)) : Value.Canonical (.obj dist) := by
  rw [archiveURL] at hdist
  split at hdist
  · next found hfound =>
      split at hdist
      · split at hdist
        · cases hdist
        · cases hdist
          exact hversion.lookup hfound
      · cases hdist
  · cases hdist

theorem canonical_setArchiveURL (hversion : Value.Canonical (.obj version))
    (hdist : Value.Canonical (.obj dist)) (field url : String) :
    Value.Canonical (.obj (setArchiveURL lib field version dist url)) :=
  hversion.set "dist" (hdist.set field (Value.canonical_str url))

theorem setArchiveURL_injective {field url url' : String}
    (heq : setArchiveURL lib field version dist url = setArchiveURL lib field version dist url') :
    url = url' := by
  have hdist := congrArg (List.lookup "dist") heq
  rw [setArchiveURL, setArchiveURL, Fields.lookup_set_self, Fields.lookup_set_self] at hdist
  have hfield := congrArg (List.lookup field) (Value.obj.inj (Option.some.inj hdist))
  rw [Fields.lookup_set_self, Fields.lookup_set_self] at hfield
  exact Value.str.inj (Option.some.inj hfield)

end Archives

/-! ## Search -/

section Search

variable (lib : JsonLib)

/-- An element of a `[]map[string]any`. -/
def searchResult : Json → Option lib.Any
  | .null => some .null
  | .obj fields => Value.ofJson lib.numbers (.obj fields)
  | _ => none

/-- The results in a member's answer; a field of a struct is found in any case of its letters. -/
def searchResults (field : String) (body : Bytes) : Option (List lib.Any) :=
  match Json.unmarshal body with
  | some .null => some []
  | some (.obj fields) =>
    match (fields.filter fun entry => Text.lower entry.1 = field).getLast? with
    | none => some []
    | some (_, .null) => some []
    | some (_, .arr items) => items.mapM (searchResult lib)
    | some _ => none
  | _ => none

def addResult (nameOf : lib.Any → String) (seen : List String × List lib.Any) (result : lib.Any) :
    List String × List lib.Any :=
  let name := nameOf result
  if name ≠ "" && seen.1.contains name then seen
  else (name :: seen.1, seen.2 ++ [result])

/-- `mergeSearch`: the results under `field`, earlier members first, one of each name. -/
def mergeSearchBy (field : String) (nameOf : lib.Any → String) (parts : List GroupPart) :
    Except Failure Bytes := do
  let found ← parts.mapM fun part =>
    match searchResults lib field part.body with
    | some results => Except.ok results
    | none =>
      .error ⟨none, "parse search results from " ++ part.feed ++ ": " ++ lib.cause part.body⟩
  let results := (found.flatten.foldl (addResult lib nameOf) ([], [])).2
  .ok (Json.marshal (.obj [
    (field, .arr (results.map (Value.toJson lib.numbers))),
    ("total", .num (toString results.length))]))

end Search

end FondacoFormal.Formats
