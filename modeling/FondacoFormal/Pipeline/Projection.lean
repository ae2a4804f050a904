import FondacoFormal.Pipeline.Publish
import FondacoFormal.Repl.Transactions
import FondacoFormal.State.Hosted

/-!
# The blob-store projection of hosted rows

Every commit to `hosted_manifests` is followed by a store write of `manifests/<feed>/<path>`
made by whoever committed.
-/

namespace FondacoFormal.Pipeline

open State Repl

/-- `manifest`, the stored object. -/
structure Manifest where
  sha256 : String
  size : Int
  checksums : StringMap
  ingestedAt : Int
  origin : String
  site : String
  publisher : String
  metadata : Metadata
  deriving DecidableEq, Repr

/-- The object `writeProjection` and `WriteReplicatedManifest` store. -/
def projectedManifest (replicated : Bool) (now : Int) (w : ProjectionWrite) : Manifest where
  sha256 := w.sha256
  size := w.size
  checksums := w.checksums
  ingestedAt := now
  origin := if replicated then "replication" else "publish"
  site := w.origin
  publisher := w.publisher
  metadata := w.metadata

/-- The checks of `WriteReplicatedManifest` on a path and a feed it did not choose. -/
def replicatedTarget (feed path : String) : Bool :=
  validRemotePath path && feed ≠ "" && feed.toList.all fun c => c ≠ '/' && c ≠ '\\'

/-! ## What each operation projects -/

/-- `writeProjection` after a publish; a metadata map the request has carries the stamp. -/
def publishProjection (p : Publisher) (req : PublishRequest) (h : HLC) : ProjectionWrite where
  feed := req.feed
  path := req.path
  sha256 := req.sha256
  size := req.size
  checksums := req.checksums
  metadata := (req.metadata.map fun m => m.stamp h).getD {}
  origin := p.site
  publisher := req.identity

def rowProjection (key : PathKey) (row : HostedRow) : ProjectionWrite :=
  projection key.1 key.2 (HostedRow.side row) row.site row.publishedBy

def resolvedProjections (pg : Postgres) (site feed path keepSha operator : String)
    (s : SiteState) : List ProjectionWrite :=
  match conflictSide pg s feed path keepSha with
  | some side => [projection feed path side site operator]
  | none => []

/-! ## Writers -/

/-- A store write that is still to be made, and how many commits there were when it was decided. -/
structure Queued where
  write : ProjectionWrite
  replicated : Bool
  decided : Nat

def Queued.key (item : Queued) : PathKey :=
  (item.write.feed, item.write.path)

inductive Writer where
  | idle
  | writing (queue : List Queued)
  /-- `RepairOnce` with rows before it. -/
  | repairing (rows : List (PathKey × HostedRow))
  /-- The projection of the row disagreed; the row is read again. -/
  | rereading (key : PathKey) (row : HostedRow) (rest : List (PathKey × HostedRow))
  | rewriting (item : Queued) (rest : List (PathKey × HostedRow))

def Writer.queued : Writer → List Queued
  | writing queue => queue
  | rewriting item _ => [item]
  | _ => []

/--
The database, the projections, and the processes at work.  `commits` counts the
committed operations and `decided` says how many there were when the stored
projection of a path was decided; both are history.
-/
structure Projecting where
  site : SiteState
  store : PathKey → Option Manifest
  writers : Nat → Writer := fun _ => .idle
  commits : Nat := 0
  decided : PathKey → Nat := fun _ => 0

namespace Projecting

def moved (w : Projecting) (i : Nat) (next : Writer) : Projecting :=
  { w with writers := Function.update w.writers i next }

def committed (w : Projecting) (i : Nat) (site : SiteState) (writes : List ProjectionWrite)
    (replicated : Bool) : Projecting :=
  { w with site := site, commits := w.commits + 1 }.moved i
    (.writing (writes.map fun write => ⟨write, replicated, w.commits + 1⟩))

def put (w : Projecting) (now : Int) (item : Queued) : Projecting :=
  if item.replicated && !replicatedTarget item.write.feed item.write.path then w
  else
    { w with
      store := Function.update w.store item.key
        (some (projectedManifest item.replicated now item.write))
      decided := Function.update w.decided item.key (max (w.decided item.key) item.decided) }

/-- `projectionMatches`. -/
def projectionMatches (w : Projecting) (key : PathKey) (row : HostedRow) : Bool :=
  match w.store key with
  | none => false
  | some m => m.sha256 = row.sha256 && m.size = row.size

def next (pg : Postgres) (i : Nat) (now : Int) (w : Projecting) : Projecting :=
  match w.writers i with
  | .idle | .writing [] | .repairing [] => w.moved i .idle
  | .writing (item :: rest) => (w.put now item).moved i (.writing rest)
  | .repairing ((key, row) :: rest) =>
    w.moved i (if w.projectionMatches key row then .repairing rest else .rereading key row rest)
  | .rereading key row rest =>
    match hostedRow pg key.1 key.2 w.site.hosted with
    | none => w.moved i (.repairing rest)
    | some (found, current) =>
      w.moved i (if current.sha256 ≠ row.sha256 then .repairing rest
        else .rewriting ⟨rowProjection found current, true, w.commits⟩ rest)
  | .rewriting item rest => (w.put now item).moved i (.repairing rest)

end Projecting

inductive ProjectOp where
  /-- `Publish` runs up to its commit. -/
  | publish (i : Nat) (req : PublishRequest) (clock : TxClock) (staged : Bool)
  | apply (i : Nat) (a : Applier) (peer : String) (e : JournalEntry)
  | retry (i : Nat) (a : Applier) (peer : String) (e : JournalEntry)
  /-- `ResolveConflict` runs up to its commit. -/
  | resolve (i : Nat) (feed path coord keepSha operator : String) (clock : TxClock)
  /-- `RepairOnce` lists the rows. -/
  | repair (i : Nat)
  | next (i : Nat) (now : Int)

def ProjectOp.starts : ProjectOp → Option Nat
  | publish i .. | apply i .. | retry i .. | resolve i .. | repair i => some i
  | next .. => none

def ProjectOp.act (p : Publisher) : ProjectOp → Projecting → Projecting
  | publish i req clock staged, w =>
    match precheck req staged with
    | some _ => w
    | none =>
      match p.insert req clock w.site with
      | .error _ => w
      | .ok (site, h, _) => w.committed i site [publishProjection p req h] false
  | apply i a peer e, w =>
    let outcome := applyOne a peer e w.site
    w.committed i outcome.state outcome.projected true
  | retry i a peer e, w =>
    let outcome := retryOne a peer e w.site
    w.committed i outcome.state outcome.projected true
  | resolve i feed path coord keepSha operator clock, w =>
    match resolveConflict p.pg p.site feed path coord keepSha operator clock w.site with
    | .error _ => w
    | .ok done => w.committed i done.state
        (resolvedProjections p.pg p.site feed path keepSha operator w.site) true
  | repair i, w => w.moved i (.repairing (listHosted p.pg "" "" w.site.hosted))
  | next i now, w => w.next p.pg i now

def ProjectOp.run (p : Publisher) (op : ProjectOp) (w : Projecting) : Projecting :=
  match op.starts with
  | none => op.act p w
  | some i =>
    match w.writers i with
    | .idle => op.act p w
    | _ => w

end FondacoFormal.Pipeline
