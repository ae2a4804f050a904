import FondacoFormal.Library.Table
import FondacoFormal.State.Clock
import Mathlib.Data.Finset.Insert

/-!
# The tables of one site

Journal entries as they travel, the rows of the tables that replication reads and writes, and
the state of one site.
-/

namespace FondacoFormal.State

open Library

/-- A JSON object of strings; checksums are only ever copied or tested for emptiness. -/
abbrev StringMap : Type := List (String × String)

/-- Manifest metadata, with the two keys the merge reads parsed as integers. -/
structure Metadata where
  hlcWall : Option Int := none
  hlcLogical : Option Int := none
  rest : StringMap := []
  deriving DecidableEq, Repr

namespace Metadata

/-- Write `hlc_wall` and `hlc_logical`, keeping the other keys. -/
def stamp (m : Metadata) (h : HLC) : Metadata :=
  { m with hlcWall := some h.wall, hlcLogical := some h.logical }

/-- `hlcFromMetadata`, which is also the SQL `COALESCE` of the two keys. -/
def hlc (m : Metadata) : HLC :=
  ⟨m.hlcWall.getD 0, m.hlcLogical.getD 0⟩

end Metadata

/-! ## Event payloads -/

/-- `ManifestPut` announces one published coordinate. -/
structure ManifestPut where
  feed : String
  path : String
  coord : String
  sha256 : String
  size : Int := 0
  checksums : StringMap := []
  metadata : Metadata := {}
  mutable : Bool := false
  publisher : String := ""
  site : String := ""
  deriving DecidableEq, Repr

/-- `BlobAvailable` announces that a site holds a blob. -/
structure BlobAvailable where
  sha256 : String
  size : Int := 0
  deriving DecidableEq, Repr

/-- `TokenRevoke` revokes a static token by hash. -/
structure TokenRevoke where
  hash : String
  deriving DecidableEq, Repr

/-- `QuarantineSet` blocks a coordinate. -/
structure QuarantineSet where
  feed : String
  coordinate : String
  reason : String
  detail : String := ""
  deriving DecidableEq, Repr

/-- `QuarantineRelease` lifts one quarantine reason. -/
structure QuarantineRelease where
  feed : String
  coordinate : String
  reason : String
  deriving DecidableEq, Repr

/-- `ConflictResolve` is an operator decision for a conflicted coordinate. -/
structure ConflictResolve where
  feed : String
  path : String
  coord : String
  keepSha : String
  operator : String := ""
  deriving DecidableEq, Repr

abbrev Decoded (α : Type) : Type := Except String α

inductive Event where
  | manifestPut (body : Decoded ManifestPut)
  | blobAvailable (body : Decoded BlobAvailable)
  | tokenRevoke (body : Decoded TokenRevoke)
  | quarantineSet (body : Decoded QuarantineSet)
  | quarantineRelease (body : Decoded QuarantineRelease)
  | conflictResolve (body : Decoded ConflictResolve)
  | unknown (kind : String)
  deriving DecidableEq, Repr

/-- The `kind` column. -/
def Event.kind : Event → String
  | .manifestPut _ => "manifest_put"
  | .blobAvailable _ => "blob_available"
  | .tokenRevoke _ => "token_revoke"
  | .quarantineSet _ => "quarantine_set"
  | .quarantineRelease _ => "quarantine_release"
  | .conflictResolve _ => "conflict_resolve"
  | .unknown kind => kind

/-- `state.JournalEntry`. -/
structure JournalEntry where
  originSite : String
  originSeq : Int
  event : Event
  hlc : HLC
  schemaVersion : Int := 1
  deriving DecidableEq, Repr

def JournalEntry.key (e : JournalEntry) : String × Int :=
  (e.originSite, e.originSeq)

/-! ## Rows -/

/-- `hosted_manifests`, keyed by feed and path. -/
structure HostedRow where
  coordinate : String
  sha256 : String
  size : Int
  checksums : StringMap
  metadata : Metadata
  mutable : Bool
  origin : String
  site : String
  publishedBy : String
  deriving DecidableEq, Repr

/-- `quarantine`, keyed by feed, coordinate and reason; active means not released. -/
structure QuarantineRow where
  detail : String
  active : Bool
  hlc : HLC
  deriving DecidableEq, Repr

structure SideMeta where
  sha256 : String
  size : Int
  checksums : StringMap
  metadata : Metadata
  deriving DecidableEq, Repr

/-- `publish_conflicts`; `resolved` is the chosen digest once the row is closed. -/
structure ConflictRow where
  feed : String
  path : String
  coordinate : String
  winnerSha : String
  loserSha : String
  winnerSite : String
  loserSite : String
  winnerMeta : SideMeta
  loserMeta : SideMeta
  resolved : Option String := none
  deriving DecidableEq, Repr

/-- `conflict_resolutions`, keyed by feed and path. -/
structure ResolutionRow where
  coordinate : String
  keepSha : String
  size : Int
  checksums : StringMap
  metadata : Metadata
  operator : String
  decidedBy : String
  hlc : HLC
  deriving DecidableEq, Repr

/-- `tokens`, keyed by hash. -/
structure TokenRow where
  name : String
  revoked : Bool
  deriving DecidableEq, Repr

/-- `repl_journal`, keyed by origin and sequence number. -/
structure JournalRow where
  event : Event
  hlc : HLC
  schemaVersion : Int
  createdAt : Int
  deriving DecidableEq, Repr

/-- `repl_parked`, listed in parking order. -/
structure ParkedRow where
  entry : JournalEntry
  reason : String
  retries : Nat
  deriving DecidableEq, Repr

/-- `repl_cursors`, keyed by peer and origin. -/
structure CursorRow where
  appliedSeq : Int
  durableSeq : Int
  originUuid : String
  deriving DecidableEq, Repr

abbrev PathKey : Type := String × String

abbrev QuarantineKey : Type := String × String × String

structure SiteState where
  hosted : Table PathKey HostedRow := ∅
  quarantine : Table QuarantineKey QuarantineRow := ∅
  conflicts : List ConflictRow := []
  resolutions : Table PathKey ResolutionRow := ∅
  tokens : Table String TokenRow := ∅
  journal : Table (String × Int) JournalRow := ∅
  parked : List ParkedRow := []
  cursors : Table (String × String) CursorRow := ∅
  clock : HlcState := .initial
  blobs : Finset String := ∅
  deriving DecidableEq

variable {c : ConflictRow}

namespace ConflictRow

def onPath (c : ConflictRow) (feed path : String) : Bool :=
  c.feed = feed && c.path = path

/-- `resolved_at IS NULL`. -/
def unresolved (c : ConflictRow) : Bool :=
  c.resolved.isNone

def names (c : ConflictRow) (sha : String) : Bool :=
  c.winnerSha = sha || c.loserSha = sha

def blocks (c : ConflictRow) (feed coordinate : String) : Bool :=
  c.feed = feed && c.coordinate = coordinate && c.unresolved

theorem onPath_iff {feed path : String} :
    c.onPath feed path = true ↔ c.feed = feed ∧ c.path = path := by
  simp [onPath]

theorem names_iff {sha : String} : c.names sha = true ↔ c.winnerSha = sha ∨ c.loserSha = sha := by
  simp [names]

theorem blocks_iff {feed coordinate : String} :
    c.blocks feed coordinate = true ↔
      c.feed = feed ∧ c.coordinate = coordinate ∧ c.unresolved = true := by
  simp [blocks, and_assoc]

end ConflictRow

def SiteState.quarantined (s : SiteState) (key : QuarantineKey) : Bool :=
  ((s.quarantine.find key).map QuarantineRow.active).getD false

def SiteState.revoked (s : SiteState) (hash : String) : Bool :=
  ((s.tokens.find hash).map TokenRow.revoked).getD false

end FondacoFormal.State
