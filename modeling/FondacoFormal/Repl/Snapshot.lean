import FondacoFormal.Repl.Writer

/-!
# Snapshots

The state a site serves to a peer that fell behind its journal, and the import
of such a state: one transaction for the restrictions, one per manifest.
-/

namespace FondacoFormal.Repl

open State

/-- `QuarantineRecord`: one register, active or released. -/
structure QuarantineRecord where
  feed : String
  coordinate : String
  reason : String
  detail : String
  active : Bool
  hlc : HLC
  deriving DecidableEq, Repr

/-- `ResolutionRecord`: an operator's decision. -/
structure ResolutionRecord where
  feed : String
  path : String
  coordinate : String
  keepSha : String
  size : Int
  checksums : StringMap
  metadata : Metadata
  operator : String
  hlc : HLC
  deriving DecidableEq, Repr

/-- `SnapshotResponse`. -/
structure Snapshot where
  site : String
  uuid : String := ""
  manifests : List ManifestPut := []
  quarantine : List QuarantineRecord := []
  revoked : List String := []
  conflicts : List ConflictRecord := []
  resolutions : List ResolutionRecord := []
  watermarks : List (String × Int) := []
  deriving DecidableEq, Repr

/-! ## Serving -/

def exportManifest (key : PathKey) (row : HostedRow) : ManifestPut where
  feed := key.1
  path := key.2
  coord := row.coordinate
  sha256 := row.sha256
  size := row.size
  checksums := row.checksums
  metadata := row.metadata
  mutable := row.mutable
  publisher := row.publishedBy
  site := row.site

def exportConflict (c : ConflictRow) : ConflictRecord where
  feed := c.feed
  path := c.path
  coordinate := c.coordinate
  winnerSha := c.winnerSha
  loserSha := c.loserSha
  winnerSite := c.winnerSite
  loserSite := c.loserSite
  winner := c.winnerMeta
  loser := c.loserMeta

def exportResolution (key : PathKey) (row : ResolutionRow) : ResolutionRecord where
  feed := key.1
  path := key.2
  coordinate := row.coordinate
  keepSha := row.keepSha
  size := row.size
  checksums := row.checksums
  metadata := row.metadata
  operator := row.operator
  hlc := row.hlc

/-- `handleSnapshot`: hosted rows, registers, revocations, open conflicts, decisions, heads. -/
def handleSnapshot (site uuid : String) (s : SiteState) : Snapshot where
  site := site
  uuid := uuid
  manifests := s.hosted.rows.map fun row => exportManifest row.1 row.2
  quarantine := s.quarantine.rows.map fun row =>
    ⟨row.1.1, row.1.2.1, row.1.2.2, row.2.detail, row.2.active, row.2.hlc⟩
  revoked := (s.tokens.rows.filter fun row => row.2.revoked).map Prod.fst
  conflicts := (s.conflicts.filter ConflictRow.unresolved).map exportConflict
  resolutions := s.resolutions.rows.map fun row => exportResolution row.1 row.2
  watermarks := (s.journal.rows.map fun row => row.1.1).dedup.map fun origin =>
    (origin, (journalHead s.journal origin).1)

/-! ## Importing -/

/-- One quarantine register; the derived block is recomputed rather than imported. -/
def importQuarantine (s : SiteState) (q : QuarantineRecord) : SiteState :=
  if q.feed = "" || q.coordinate = "" || q.reason = "" || q.reason = crossSiteConflict then s
  else applyQuarantineDecisionTx q.feed q.coordinate q.reason q.detail q.active q.hlc s

def importConflict (s : SiteState) (c : ConflictRecord) : SiteState :=
  if c.feed = "" || c.path = "" || c.winnerSha.utf8ByteSize ≠ 64 || c.loserSha.utf8ByteSize ≠ 64
  then s
  else importConflictTx c s

def importResolution (peer : String) (s : SiteState) (r : ResolutionRecord) : SiteState :=
  if r.feed = "" || r.path = "" || r.keepSha.utf8ByteSize ≠ 64 then s
  else recordResolution r.feed r.path r.coordinate
    ⟨r.keepSha, r.size, r.checksums, r.metadata, r.hlc⟩ r.operator peer s

def importRevocation (s : SiteState) (hash : String) : Except SqlCause SiteState :=
  if hash.utf8ByteSize ≠ 64 then .ok s else revokeToken hash s

/-- `applySnapshotRestrictions`: one transaction. -/
def applySnapshotRestrictions (peer : String) (snap : Snapshot) (s : SiteState) :
    Except SqlCause SiteState :=
  let restricted := snap.quarantine.foldl importQuarantine s
  let conflicted := snap.conflicts.foldl importConflict restricted
  let decided := snap.resolutions.foldl (importResolution peer) conflicted
  snap.revoked.foldlM importRevocation decided

def snapshotEntry (site : String) (p : ManifestPut) : JournalEntry :=
  ⟨site, 0, .manifestPut (.ok p), p.metadata.hlc, 1⟩

/-- `withoutEagerFeeds`. -/
def Applier.withoutEagerFeeds (a : Applier) : Applier :=
  { a with eager := fun _ => false }

/-- `importSnapshotEntry`: a manifest that would park is reported instead. -/
def importSnapshotEntry (a : Applier) (peer : String) (e : JournalEntry) (s : SiteState) :
    Except Fault Effect :=
  match dispatch a.withoutEagerFeeds peer e s with
  | .ok effect => .ok effect
  | .error (.park reason) =>
    .error (.refused (s!"snapshot entry from {peer} cannot be applied: " ++ reason.getD ""))
  | .error fault => .error fault

def prefetchSnapshotBlob (a : Applier) (peer : String) (e : JournalEntry) (s : SiteState) :
    SiteState :=
  match prefetchBlob a peer e s with
  | .ok fetched => fetched
  | .error _ => s

def importManifest (a : Applier) (peer site : String) (p : ManifestPut) (s : SiteState) :
    Outcome :=
  let e := snapshotEntry site p
  let fetched := prefetchSnapshotBlob a peer e s
  match importSnapshotEntry a peer e fetched with
  | .ok effect => commit a e fetched effect effect.state
  | .error fault => { state := fetched, fault := some fault }

def importManifests (a : Applier) (peer site : String) : List ManifestPut → SiteState → Outcome
  | [], s => { state := s }
  | p :: rest, s => (importManifest a peer site p s).andThen (importManifests a peer site rest)

def Snapshot.stamps (snap : Snapshot) : List HLC :=
  snap.manifests.map (fun p => p.metadata.hlc) ++ snap.quarantine.map QuarantineRecord.hlc ++
    snap.resolutions.map ResolutionRecord.hlc

def Snapshot.newest (snap : Snapshot) : HLC :=
  snap.stamps.foldl (fun newest h => if newest.before h then h else newest) ⟨0, 0⟩

/-- `advanceClockPastSnapshot`; a failure is only logged. -/
def advanceClockPastSnapshot (snap : Snapshot) (s : SiteState) : SiteState :=
  if snap.newest.wall = 0 ∧ snap.newest.logical = 0 then s
  else
    match replHlcRecv snap.newest s.clock with
    | .ok clock => { s with clock := clock }
    | .error _ => s

def adoptWatermark (peer : String) (snap : Snapshot) (s : SiteState) : SiteState :=
  match snap.watermarks.lookup snap.site with
  | some seq => setCursor s peer snap.site ⟨seq, 0, snap.uuid⟩
  | none => s

/-- `bootstrap` from a snapshot a peer served. -/
def bootstrap (a : Applier) (peer : String) (snap : Snapshot) (s : SiteState) : Outcome :=
  if snap.site ≠ peer then
    { state := s
      fault := some (.refused
        s!"peer {peer} served a snapshot attributed to site {snap.site.quote}: refusing") }
  else
    match applySnapshotRestrictions peer snap s with
    | .error cause => { state := s, fault := some (.sql "apply revocation from snapshot" cause) }
    | .ok restricted =>
      (importManifests a peer snap.site snap.manifests restricted).andThen fun imported =>
        { state := adoptWatermark peer snap (advanceClockPastSnapshot snap imported) }

end FondacoFormal.Repl
