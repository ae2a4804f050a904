import FondacoFormal.Library.ReadCommitted
import FondacoFormal.Repl.Writer

/-!
# Publishing on replicas that share a database

`Publisher.Publish` statement by statement: the checks before the transaction, `InsertHostedTx`
with its insert-or-nothing, its read and its update, the journal entries, and the commit.
-/

namespace FondacoFormal.Pipeline

open Library Library.ReadCommitted State Repl

/-! ## Paths -/

/-- One segment in `path.Clean`, on the segments kept so far, last first. -/
def cleanSegment (rooted : Bool) (kept : List (List Char)) (segment : List Char) :
    List (List Char) :=
  if segment = [] ∨ segment = ['.'] then kept
  else if segment = ['.', '.'] then
    match kept with
    | [] => if rooted then [] else [segment]
    | last :: rest => if last = ['.', '.'] then segment :: kept else rest
  else segment :: kept

/-- `path.Clean`. -/
def pathClean (p : String) : String :=
  let rooted := p.toList.head? = some '/'
  let kept := (p.toList.splitOn '/').foldl (cleanSegment rooted) []
  let body := ['/'].intercalate kept.reverse
  if rooted then String.ofList ('/' :: body)
  else if body = [] then "." else String.ofList body

/-- `validRemotePath`. -/
def validRemotePath (p : String) : Bool :=
  !(p = "" || p.toList.head? = some '/') &&
    !(pathClean p ≠ p || pathClean p = "." || ['.', '.', '/'].isPrefixOf (pathClean p).toList)

/-! ## The database -/

inductive RowWrite where
  | clock (row : HlcState)
  | hosted (key : PathKey) (row : HostedRow)
  | journal (key : String × Int) (row : JournalRow)

inductive RowKey where
  | clock
  | hosted (key : PathKey)
  | journal (key : String × Int)
  deriving DecidableEq

instance : RowWrites RowWrite SiteState RowKey where
  apply
    | .clock row, s => { s with clock := row }
    | .hosted key row, s => writeHosted key row s
    | .journal key row, s => { s with journal := s.journal.put key row }
  row
    | .clock _ => .clock
    | .hosted key _ => .hosted key
    | .journal key _ => .journal key

/-! ## Calls -/

structure Publisher where
  site : String
  pg : Postgres
  replicating : Bool

inductive PublishError where
  /-- `ErrBadRequest`: no path or no digest. -/
  | badRequest
  | invalidPath
  | missingBlob
  /-- `ErrImmutable`. -/
  | immutable
  | database (cause : SqlCause)
  | noRows
  deriving DecidableEq, Repr

/-- `api.PublishResult`. -/
structure PublishResult where
  created : Bool
  sha256 : String
  deriving DecidableEq, Repr

def precheck (req : PublishRequest) (staged : Bool) : Option PublishError :=
  if req.sha256 = "" || req.path = "" then some .badRequest
  else if !validRemotePath req.path then some .invalidPath
  else if !staged then some .missingBlob
  else none

inductive PublishPhase where
  | begun
  /-- `repl_hlc_now` was called. -/
  | stamped (h : HLC)
  | conflicting (h : HLC)
  | updating (h : HLC)
  | written (h : HLC)
  | announced (h : HLC)
  | finishing (created : Bool)

structure PublishCall where
  req : PublishRequest
  startedAt : Int
  phase : PublishPhase

/-- A call that returned, with the committed tables right before and right after. -/
structure Ended where
  req : PublishRequest
  staged : Bool
  result : Except PublishError PublishResult
  before : SiteState
  after : SiteState

/-- The shared database, the open calls, and the calls that returned, oldest first. -/
structure Publishing where
  db : Database SiteState RowWrite RowKey Nat
  calls : Nat → Option PublishCall := fun _ => none
  ended : List Ended := []

namespace Publishing

def proceed (w : Publishing) (i : Nat) (db : Database SiteState RowWrite RowKey Nat)
    (call : PublishCall) (phase : PublishPhase) : Publishing :=
  { w with db := db, calls := Function.update w.calls i (some { call with phase := phase }) }

def finish (w : Publishing) (i : Nat) (db : Database SiteState RowWrite RowKey Nat)
    (call : PublishCall) (result : Except PublishError PublishResult) : Publishing where
  db := db
  calls := Function.update w.calls i none
  ended := w.ended ++ [⟨call.req, true, result, w.db.committed, db.committed⟩]

def fail (w : Publishing) (i : Nat) (call : PublishCall) (error : PublishError) : Publishing :=
  w.finish i (w.db.rollback i) call (.error error)

/-- `AppendJournal` as a statement of a call. -/
def append (p : Publisher) (i : Nat) (nowMs : Int) (call : PublishCall) (event : Event)
    (phase : PublishPhase) (w : Publishing) : Publishing :=
  if w.db.Free i .clock then
    match appendJournal p.pg p.site event nowMs call.startedAt (w.db.view i) with
    | .ok (next, e) =>
      if w.db.Free i (.journal e.key) then
        let row : JournalRow := ⟨e.event, e.hlc, e.schemaVersion, call.startedAt⟩
        w.proceed i ((w.db.write i (.clock next.clock)).write i (.journal e.key row)) call phase
      else w
    | .error cause => w.fail i call (.database cause)
  else w

/-- The next statement of an open call; it waits while another call locks the row it writes. -/
def statement (p : Publisher) (i : Nat) (nowMs : Int) (call : PublishCall) (w : Publishing) :
    Publishing :=
  let seen := w.db.view i
  let key := (call.req.feed, call.req.path)
  match call.phase with
  | .begun =>
    if w.db.Free i .clock then
      match replHlcNow nowMs seen.clock with
      | .ok (clock, h) => w.proceed i (w.db.write i (.clock clock)) call (.stamped h)
      | .error cause => w.fail i call (.database cause)
    else w
  | .stamped h =>
    -- `INSERT .. ON CONFLICT DO NOTHING`
    match seen.hosted.find key with
    | some _ => w.proceed i w.db call (.conflicting h)
    | none =>
      if w.db.Free i (.hosted key) then
        w.proceed i (w.db.write i (.hosted key (publishedRow p.site call.req h))) call
          (.written h)
      else w
  | .conflicting h =>
    match seen.hosted.find key with
    | none => w.fail i call .noRows
    | some existing =>
      if existing.sha256 = call.req.sha256 then w.proceed i w.db call (.finishing false)
      else if !existing.mutable || !call.req.mutable then w.fail i call .immutable
      else w.proceed i w.db call (.updating h)
  | .updating h =>
    if w.db.Free i (.hosted key) then
      match seen.hosted.find key with
      | none => w.proceed i w.db call (.written h)
      | some existing =>
        w.proceed i (w.db.write i (.hosted key (HostedRow.republish existing p.site call.req h)))
          call (.written h)
    else w
  | .written h =>
    if p.replicating then
      w.append p i nowMs call (.manifestPut (.ok (call.req.payload h))) (.announced h)
    else w.proceed i w.db call (.finishing true)
  | .announced _ =>
    w.append p i nowMs call (.blobAvailable (.ok ⟨call.req.sha256, call.req.size⟩))
      (.finishing true)
  | .finishing created =>
    w.finish i (w.db.commit i) call (.ok ⟨created, call.req.sha256⟩)

end Publishing

inductive PublishOp where
  /-- `Publish` is called; `staged` is what the blob store answers. -/
  | call (i : Nat) (req : PublishRequest) (startedAt : Int) (staged : Bool)
  | next (i : Nat) (nowMs : Int)
  /-- The call is given up: its transaction rolls back and nobody gets an answer. -/
  | interrupt (i : Nat)

def PublishOp.run (p : Publisher) : PublishOp → Publishing → Publishing
  | call i req startedAt staged, w =>
    match w.calls i with
    | some _ => w
    | none =>
      match precheck req staged with
      | some error =>
        { w with ended := w.ended ++ [⟨req, staged, .error error, w.db.committed, w.db.committed⟩] }
      | none => { w with calls := Function.update w.calls i (some ⟨req, startedAt, .begun⟩) }
  | next i nowMs, w =>
    match w.calls i with
    | none => w
    | some open_ => w.statement p i nowMs open_
  | interrupt i, w =>
    match w.calls i with
    | none => w
    | some _ => { w with db := w.db.rollback i, calls := Function.update w.calls i none }

def Publishing.start (s : SiteState) : Publishing where
  db := .quiet s

/-! ## The transaction as a whole -/

/-- The transaction of `insertWithJournal` in one go: its stamp, and whether it wrote the row. -/
def Publisher.insert (p : Publisher) (req : PublishRequest) (clock : TxClock) (s : SiteState) :
    Except Fault (SiteState × HLC × Bool) :=
  if p.replicating then
    (insertWithJournal p.pg p.site req clock s).map fun done =>
      (done.state, done.stamp, done.entry.isSome)
  else insertHostedTx p.site req clock.stampMs s

def samplePublish (sha256 : String) : PublishRequest where
  feed := "npm"
  path := "pkg/1.tgz"
  coord := "pkg@1"
  sha256 := sha256
  size := 10
  checksums := []
  metadata := none
  mutable := false
  identity := "user:a"

end FondacoFormal.Pipeline
