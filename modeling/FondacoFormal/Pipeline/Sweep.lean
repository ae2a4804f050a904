import Mathlib.Data.Finset.Basic
import FondacoFormal.Pipeline.Projection

/-!
# Garbage collection beside writers

`sweep` marks what the database and the manifests name, statement by statement, then walks the
blobs and deletes what is neither marked nor young.
-/

namespace FondacoFormal.Pipeline

open Library State Repl

/-! ## References -/

inductive Reference where
  /-- A row of `hosted_manifests`. -/
  | row (key : PathKey) (sha256 : String)
  | side (key : PathKey) (sha256 : String)
  /-- An object under `manifests/`. -/
  | manifest (key : PathKey) (sha256 : String)
  deriving DecidableEq, Repr

def Reference.sha256 : Reference → String
  | row _ digest | side _ digest | manifest _ digest => digest

/-- What `ListHosted` finds. -/
def rowReferences (s : SiteState) : List Reference :=
  s.hosted.rows.map fun listed => .row listed.1 listed.2.sha256

/-- What `ListConflicts` finds when it is asked for open conflicts only. -/
def sideReferences (s : SiteState) : List Reference :=
  (s.conflicts.filter ConflictRow.unresolved).flatMap fun c =>
    [.side (c.feed, c.path) c.winnerSha, .side (c.feed, c.path) c.loserSha]

def manifestReferences (manifests : Table PathKey String) : List Reference :=
  (manifests.rows.filter fun stored => stored.2 ≠ "").map fun stored => .manifest stored.1 stored.2

/-! ## The state -/

structure Pending where
  key : PathKey
  sha256 : String
  replicated : Bool
  /-- The blob was there when the operation behind the manifest checked for it. -/
  vouched : Bool
  deriving DecidableEq, Repr

inductive Work where
  | idle
  /-- `startUpload` found the blob to mount; `Publish` is called next. -/
  | mounted (req : PublishRequest)
  /-- `Publish` found the blob; the row is committed next. -/
  | staged (req : PublishRequest)
  /-- `fetchAndStore` did not find the blob and puts it next. -/
  | missing (key : PathKey) (sha256 : String)
  /-- The blob of an ingest is stored; its manifest is written next. -/
  | stored (key : PathKey) (sha256 : String)
  /-- `prefetchBlob` is done; the transaction of the event comes next. -/
  | fetched (a : Applier) (peer : String) (e : JournalEntry) (retried : Bool)
  /-- The transaction looked for the blob again among `seen` and commits next. -/
  | rechecked (a : Applier) (peer : String) (e : JournalEntry) (retried : Bool)
      (seen : Finset String)
  | projecting (queue : List Pending)

def Work.isIdle : Work → Bool
  | idle => true
  | _ => false

/-- The digest `applyManifestPut` checks for: only eager feeds look. -/
def checkedDigest (a : Applier) (e : JournalEntry) : Option String :=
  match e.event with
  | .manifestPut (.ok p) => if a.eager p.feed then some p.sha256 else none
  | _ => none

def Work.held : Work → List String
  | staged req => [req.sha256]
  | stored _ digest => [digest]
  | rechecked a _ e _ seen => (checkedDigest a e).toList.filter fun digest => digest ∈ seen
  | projecting queue => (queue.filter Pending.vouched).map Pending.sha256
  | _ => []

structure GcFlags where
  database : Bool
  doDelete : Bool
  minAge : Int

inductive SweepPhase where
  | idle
  | rowsRead (marked : List String)
  | conflictsRead (marked : List String)
  | reading (keys : List PathKey) (marked : List String)
  /-- The blobs listed and not yet looked at, with their modification times. -/
  | sweeping (cutoff : Int) (listed : List (String × Int)) (marked : List String)

/--
A site, its blob store, the operations under way and the sweep.  `steady` holds
the references in force ever since the sweep began and `vouched` those whose blob
was there when the operation behind them checked for it; both are history.
-/
structure Collecting where
  site : SiteState
  modified : String → Int
  manifests : Table PathKey String
  works : List Work
  sweep : SweepPhase := .idle
  steady : List Reference := []
  vouched : List Reference := []

namespace Collecting

def references (w : Collecting) : List Reference :=
  rowReferences w.site ++ sideReferences w.site ++ manifestReferences w.manifests

def start (site : SiteState) (modified : String → Int) (manifests : Table PathKey String)
    (processes : Nat) : Collecting :=
  let w : Collecting := ⟨site, modified, manifests, List.replicate processes .idle, .idle, [], []⟩
  { w with vouched := w.references.filter fun r => r.sha256 ∈ site.blobs }

def moved (w : Collecting) (i : Nat) (next : Work) : Collecting :=
  { w with works := w.works.set i next }

def putBlob (w : Collecting) (digest : String) (now : Int) : Collecting :=
  { w with
    site := storeBlob digest w.site
    modified := Function.update w.modified digest now }

/-- The tables or the manifests changed after `found` was found in the store. -/
def changed (w : Collecting) (site : SiteState) (manifests : Table PathKey String)
    (found : List String) : Collecting :=
  let after : Collecting := { w with site := site, manifests := manifests }
  { after with
    steady := w.steady.filter fun r => r ∈ after.references
    vouched := after.references.filter fun r =>
      r.sha256 ∈ found ∨ r.sha256 ∈ w.vouched.map Reference.sha256 }

def committed (w : Collecting) (i : Nat) (site : SiteState) (writes : List ProjectionWrite)
    (replicated : Bool) (found : List String) : Collecting :=
  let after := w.changed site w.manifests found
  after.moved i (.projecting (writes.map fun write =>
    ⟨(write.feed, write.path), write.sha256, replicated,
      write.sha256 ∈ after.vouched.map Reference.sha256⟩))

/-! ## Operations -/

/-- `Publish` up to its look at the staged blob. -/
def publish (i : Nat) (req : PublishRequest) (w : Collecting) : Collecting :=
  match precheck req (hasBlob w.site req.sha256) with
  | some _ => w.moved i .idle
  | none => w.moved i (.staged req)

def applies (i : Nat) (a : Applier) (peer : String) (e : JournalEntry) (retried : Bool) (now : Int)
    (w : Collecting) : Collecting :=
  if !retried && a.maxSkew < a.skew e then
    w.changed (park a e (some ("clock skew " ++ durationText (a.skew e / 1000000000))) w.site).state
      w.manifests []
  else
    match prefetchBlob a peer e w.site with
    | .ok fetched =>
      { w.changed fetched w.manifests [] with
        modified := fun digest =>
          if digest ∈ fetched.blobs \ w.site.blobs then now else w.modified digest }.moved i
        (.fetched a peer e retried)
    | .error (.park reason) =>
      if retried then w else w.changed (park a e reason w.site).state w.manifests []
    | .error _ => w

/-- The transaction of an event; `seen` is the store as its check for the blob found it. -/
def appliesFetched (i : Nat) (a : Applier) (peer : String) (e : JournalEntry) (retried : Bool)
    (seen : Finset String) (now : Int) (w : Collecting) : Collecting :=
  let before := { w.site with blobs := seen }
  let outcome := if retried then retryFetched a peer e before else applyFetched a peer e before
  let arrived := outcome.state.blobs \ seen
  { w with
    modified := fun digest => if digest ∈ arrived then now else w.modified digest }.committed i
    { outcome.state with blobs := w.site.blobs ∪ arrived } outcome.projected true
    (Work.rechecked a peer e retried seen).held

def next (p : Publisher) (i : Nat) (now : Int) (clock : TxClock) (w : Collecting) : Collecting :=
  match w.works[i]? with
  | none | some .idle => w
  | some (.mounted req) => w.publish i req
  | some (.staged req) =>
    match p.insert req clock w.site with
    | .error _ => w.moved i .idle
    | .ok (site, h, _) => w.committed i site [publishProjection p req h] false [req.sha256]
  | some (.missing key digest) => (w.putBlob digest now).moved i (.stored key digest)
  | some (.stored key digest) =>
    (w.changed w.site (w.manifests.put key digest) [digest]).moved i .idle
  | some (.fetched a peer e retried) => w.moved i (.rechecked a peer e retried w.site.blobs)
  | some (.rechecked a peer e retried seen) => w.appliesFetched i a peer e retried seen now
  | some (.projecting []) => w.moved i .idle
  | some (.projecting (item :: rest)) =>
    (if item.replicated && !replicatedTarget item.key.1 item.key.2 then w
      else w.changed w.site (w.manifests.put item.key item.sha256)
        (if item.vouched then [item.sha256] else [])).moved i (.projecting rest)

/-! ## The sweep -/

/-- The next statement of `sweep`. -/
def sweepNext (flags : GcFlags) (now : Int) (w : Collecting) : Collecting :=
  match w.sweep with
  | .idle =>
    { w with
      steady := w.references
      sweep := if flags.database then .rowsRead ((rowReferences w.site).map Reference.sha256)
        else .conflictsRead [] }
  | .rowsRead marked =>
    { w with sweep := .conflictsRead ((sideReferences w.site).map Reference.sha256 ++ marked) }
  | .conflictsRead marked =>
    { w with sweep := .reading (w.manifests.rows.map Prod.fst) marked }
  | .reading (key :: rest) marked =>
    -- `manifestDigest` answers an empty digest for an object that is gone.
    let digest := (w.manifests.find key).getD ""
    { w with sweep := .reading rest (if digest ≠ "" then digest :: marked else marked) }
  | .reading [] marked => { w with sweep := .sweeping (now - flags.minAge) [] marked }
  | .sweeping _ [] _ => w
  | .sweeping cutoff ((digest, modTime) :: rest) marked =>
    let w := { w with sweep := .sweeping cutoff rest marked }
    if digest ∈ marked || cutoff < modTime || !flags.doDelete then w
    else { w with site := { w.site with blobs := w.site.blobs.erase digest } }

/-- The walk over the manifests comes to one that was written after it started. -/
def walked (key : PathKey) (w : Collecting) : Collecting :=
  match w.sweep with
  | .reading keys marked => { w with sweep := .reading (keys ++ [key]) marked }
  | _ => w

def scanned (digest : String) (w : Collecting) : Collecting :=
  match w.sweep with
  | .sweeping cutoff listed marked =>
    if hasBlob w.site digest then
      { w with sweep := .sweeping cutoff (listed ++ [(digest, w.modified digest)]) marked }
    else w
  | _ => w

end Collecting

inductive CollectOp where
  | put (digest : String) (now : Int)
  /-- `startUpload` with a digest to mount. -/
  | mount (i : Nat) (req : PublishRequest)
  | publish (i : Nat) (req : PublishRequest)
  /-- `fetchAndStore` looks for the blob it has downloaded. -/
  | ingest (i : Nat) (key : PathKey) (digest : String)
  | apply (i : Nat) (a : Applier) (peer : String) (e : JournalEntry) (retried : Bool) (now : Int)
  | next (i : Nat) (now : Int) (clock : TxClock)
  | fail (i : Nat)
  | sweep (now : Int)
  | walk (key : PathKey)
  | scan (digest : String)
  | finish

def CollectOp.starts : CollectOp → Option Nat
  | mount i _ | publish i _ | ingest i _ _ | apply i .. => some i
  | _ => none

def CollectOp.act (p : Publisher) (flags : GcFlags) : CollectOp → Collecting → Collecting
  | put digest now, w => w.putBlob digest now
  | mount i req, w => w.moved i (if hasBlob w.site req.sha256 then .mounted req else .idle)
  | publish i req, w => w.publish i req
  | ingest i key digest, w =>
    w.moved i (if hasBlob w.site digest then .stored key digest else .missing key digest)
  | apply i a peer e retried now, w => w.applies i a peer e retried now
  | next i now clock, w => w.next p i now clock
  | fail i, w => w.moved i .idle
  | sweep now, w => w.sweepNext flags now
  | walk key, w => w.walked key
  | scan digest, w => w.scanned digest
  | finish, w => { w with sweep := .idle }

def CollectOp.run (p : Publisher) (flags : GcFlags) (op : CollectOp) (w : Collecting) :
    Collecting :=
  match op.starts with
  | none => op.act p flags w
  | some i =>
    match w.works[i]? with
    | some .idle => op.act p flags w
    | _ => w

end FondacoFormal.Pipeline
