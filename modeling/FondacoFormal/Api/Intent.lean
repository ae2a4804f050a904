import FondacoFormal.Library.Text
import FondacoFormal.Server.Hosting

/-!
# Coordinates, intents and format modules

What a request means, apart from any wire protocol: the coordinate it is about and the document
that answers it.
-/

namespace FondacoFormal.Api

open Library State Server

/-! ## Coordinates -/

/-- `api.PackageCoordinate`; the version is empty for documents about a whole package. -/
structure PackageCoordinate where
  format : String
  name : String
  version : String := ""
  deriving DecidableEq, Repr

/-- `PackageCoordinate.String`. -/
def PackageCoordinate.text (c : PackageCoordinate) : String :=
  if c.version = "" then c.format ++ ":" ++ c.name
  else c.format ++ ":" ++ c.name ++ "@" ++ c.version

/-- `parseCoordinate`. -/
def parseCoordinate (s : String) : PackageCoordinate :=
  match Text.cut s ':' with
  | none => ⟨"", s, ""⟩
  | some (format, rest) =>
    match Text.lastCut rest '@' with
    | none => ⟨format, rest, ""⟩
    | some (name, version) => ⟨format, name, version⟩

/-- What follows the colon in the text of a coordinate. -/
def PackageCoordinate.tail (c : PackageCoordinate) : String :=
  if c.version = "" then c.name else c.name ++ "@" ++ c.version

theorem PackageCoordinate.text_eq (c : PackageCoordinate) :
    c.text.toList = c.format.toList ++ ':' :: c.tail.toList := by
  rw [text, tail]
  split <;> simp

/-- A coordinate is read back from its text exactly when its format has no colon and neither
its version nor, without a version, its name has an at sign. -/
theorem parseCoordinate_text_iff (c : PackageCoordinate) :
    parseCoordinate c.text = c ↔ ':' ∉ c.format.toList ∧
      '@' ∉ (if c.version = "" then c.name else c.version).toList := by
  have hcut : ':' ∉ c.format.toList → Text.cut c.text ':' = some (c.format, c.tail) :=
    fun hformat => Text.cut_eq_some.2 ⟨hformat, c.text_eq⟩
  obtain ⟨format, name, version⟩ := c
  constructor
  · intro h
    have hformat : ':' ∉ format.toList := by
      rw [parseCoordinate] at h
      split at h
      · next hnone =>
          have hchars := Text.cutChars_eq_none.1 (Option.map_eq_none_iff.1 hnone)
          simp [PackageCoordinate.text_eq] at hchars
      · next found rest hsome =>
          have hfound : found = format := by
            have := congrArg PackageCoordinate.format h
            split at this <;> exact this
          exact hfound ▸ (Text.cut_eq_some.1 hsome).1
    refine ⟨hformat, ?_⟩
    rw [parseCoordinate, hcut hformat] at h
    dsimp only at h
    cases hlast : Text.lastCut (PackageCoordinate.tail ⟨format, name, version⟩) '@' with
    | none =>
      rw [hlast] at h
      obtain rfl : "" = version := congrArg PackageCoordinate.version h
      simpa [PackageCoordinate.tail] using Text.lastCut_eq_none.1 hlast
    | some parts =>
      rw [hlast] at h
      cases h
      obtain ⟨hversion, htail⟩ := Text.lastCut_eq_some.1 hlast
      have hsome : parts.2 ≠ "" := by
        intro hempty
        have hlength := congrArg List.length htail
        simp [PackageCoordinate.tail, hempty] at hlength
      rwa [if_neg hsome]
  · rintro ⟨hformat, hat⟩
    rw [parseCoordinate, hcut hformat]
    dsimp only
    by_cases hversion : version = ""
    · rw [if_pos hversion] at hat
      rw [PackageCoordinate.tail, if_pos hversion, Text.lastCut_eq_none.2 hat, hversion]
    · rw [if_neg hversion] at hat
      rw [PackageCoordinate.tail, if_neg hversion,
        (Text.lastCut_eq_some (a := name)).2 ⟨hat, by simp⟩]

/-! ## Intents -/

/-- `api.IntentKind`. -/
inductive IntentKind where
  | artifact
  | metadata
  | synthetic
  | search
  deriving DecidableEq, Repr

/-- `api.Checksum`. -/
structure Checksum where
  algo : String := ""
  hex : String := ""
  deriving DecidableEq, Repr

/-- `Checksum.IsZero`. -/
def Checksum.isZero (c : Checksum) : Bool :=
  c.algo = "" && c.hex = ""

/-- `api.ChecksumSource`. -/
structure ChecksumSource where
  algo : String := ""
  path : String := ""
  deriving DecidableEq, Repr

/-- `ChecksumSource.IsZero`. -/
def ChecksumSource.isZero (c : ChecksumSource) : Bool :=
  c.algo = "" && c.path = ""

/-- `api.Intent`; durations are in seconds. -/
structure Intent where
  kind : IntentKind
  coord : PackageCoordinate
  cacheTTL : Int := 0
  remotePath : String
  checksum : Checksum := {}
  remoteChecksum : ChecksumSource := {}
  wantChecksum : String := ""
  indirect : Bool := false
  remoteURL : String := ""
  contentType : String := ""
  accept : String := ""
  remoteQuery : String := ""
  deriving DecidableEq, Repr

/-- `api.Source`. -/
inductive Source where
  | cache
  | upstream
  | stale
  | here
  | peer
  deriving DecidableEq, Repr

/-- The value of `X-Registry-Source`. -/
def Source.text : Source → String
  | cache => "cache"
  | upstream => "upstream"
  | stale => "stale"
  | here => "local"
  | peer => "peer"

/-- `api.Feed`, as far as serving reads it. -/
structure Feed where
  name : String
  format : String
  upstream : String := ""
  hosted : Bool := false
  externalURL : String := ""
  deriving DecidableEq, Repr

/-! ## Format modules -/

/-- A read request as a module parses it: the path within the feed, decoded. -/
structure ReadRequest where
  method : String
  path : String
  query : String := ""
  deriving DecidableEq, Repr

/-- `api.SyntheticResponse`. -/
structure SyntheticResponse where
  status : Nat
  headers : List (String × String) := []
  body : Bytes
  deriving DecidableEq

/-- `api.HostedManifest`, as far as modules read it. -/
structure HostedManifest where
  path : String
  coord : PackageCoordinate
  sha256 : String
  size : Int
  checksums : StringMap
  publishedAt : Int
  deriving DecidableEq, Repr

/-- `api.GroupPart`. -/
structure GroupPart where
  feed : String
  body : Bytes
  deriving DecidableEq

/-- `api.GroupMerger`. -/
structure GroupMerger where
  mergeableIntent : Intent → Bool
  merge : Feed → Intent → List GroupPart → Except Failure Bytes

/-- `api.MetadataSource`. -/
structure MetadataSource where
  metadataIntent : Feed → PackageCoordinate → Option Intent
  extractMetadata : PackageCoordinate → Bytes → Except Failure StringMap

/-- `api.IndirectTarget`. -/
structure IndirectTarget where
  location : String
  checksum : Checksum := {}
  deriving DecidableEq, Repr

/-- `api.FormatModule` with the optional capabilities that reading uses.  `search` gets
the rows of the feed, each with the content of its blob. -/
structure FormatModule where
  name : String
  parse : ReadRequest → Except Failure Intent
  rewriteMetadata : Feed → Bytes → Except Failure Bytes := fun _ body => .ok body
  synthesize : Option (Feed → Intent → Except Failure SyntheticResponse) := none
  search : Option (Feed → Intent → List (HostedManifest × Except Failure Bytes) →
    Except Failure SyntheticResponse) := none
  metadataSource : Option MetadataSource := none
  resolveIndirect : Option (Feed → Intent → Nat → List (String × String) → Bytes →
    Except Failure IndirectTarget) := none
  redirectSafeIntent : Option (Intent → Bool) := none
  groupMerger : Option GroupMerger := none
  responseHeaders : Option (Feed → Intent → String → List (String × String)) := none

end FondacoFormal.Api
