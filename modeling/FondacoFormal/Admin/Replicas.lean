import FondacoFormal.Admin.Document
import FondacoFormal.Library.Runs

/-!
# Replicas that edit one document

Any number of replicas hold a snapshot of the stored document and its version.
-/

namespace FondacoFormal.Admin

variable {Config : Type}

/-! ## State -/

/-- A `config.Manager`: the snapshot, its version, and the call that holds its mutex. -/
structure Replica (Config : Type) where
  version : String
  config : Config
  document : Document
  busy : Option Nat := none

/-- An edit request, with its `If-Match` after `trimETag`. -/
structure Request where
  replica : Nat
  edit : Edit
  ifMatch : String

inductive EditError where
  | lockUnavailable
  | unreadable
  | versionConflict (stored expected : String)
  | invalid (message : String)
  | notWritten
  /-- The resource a `DELETE` names is not there. -/
  | notFound
  deriving DecidableEq, Repr

structure Write (Config : Type) where
  updated : Document
  config : Config
  /-- The version `Source.Write` is to find, `""` for any. -/
  expected : String
  reported : Bool

inductive Phase (Config : Type) where
  | idle
  | waiting (request : Request)
  | locked (request : Request)
  /-- The new document is valid, the manager's mutex comes next. -/
  | prepared (request : Request) (write : Write Config)
  /-- The mutex is held, the stored version is compared next. -/
  | comparing (request : Request) (write : Write Config)
  /-- The store's `Put` comes next. -/
  | putting (request : Request) (write : Write Config)
  | swapping (request : Request) (write : Write Config)
  | leaving (request : Request) (result : Except EditError String)
  | answered (request : Request) (result : Except EditError String)
  | reloading (replica : Nat)
  | reloaded (replica : Nat) (raw : Document) (config : Config)
  /-- A `GET` has read the snapshot, the version comes next. -/
  | gotContent (replica : Nat) (config : Config) (document : Document)
  /-- A `GET` has read the version, the snapshot comes next. -/
  | gotVersion (replica : Nat) (version : String)

/-- An edit that was stored: what it was applied to, and what it made of it. -/
structure Commit where
  call : Nat
  request : Request
  base : Document
  next : Document

/-- The answer to a `GET`: the document its body was taken from, and its `ETag`. -/
structure Response where
  document : Document
  etag : String
  deriving DecidableEq, Repr

/-- The stored document, the lock, the replicas and the calls under way.  The last two fields are
history. -/
structure World (Config : Type) where
  stored : Document
  lock : Option Nat := none
  replicas : Nat → Replica Config
  calls : Nat → Phase Config := fun _ => .idle
  commits : List Commit := []
  responses : List Response := []

variable (w : World Config)

namespace World

def moved (w : World Config) (call : Nat) (phase : Phase Config) : World Config :=
  { w with calls := Function.update w.calls call phase }

def changed (w : World Config) (i : Nat) (replica : Replica Config) : World Config :=
  { w with replicas := Function.update w.replicas i replica }

def enter (w : World Config) (i call : Nat) : World Config :=
  w.changed i { w.replicas i with busy := some call }

def exit (w : World Config) (i : Nat) : World Config :=
  w.changed i { w.replicas i with busy := none }

/-- A document is stored; an edit that will be reported as done goes into the history. -/
def stores (w : World Config) (commit : Commit) (reported : Bool) : World Config :=
  { w with
    stored := commit.next
    commits := if reported then w.commits ++ [commit] else w.commits }

/-- A `GET` is answered. -/
def responded (w : World Config) (response : Response) : World Config :=
  { w with responses := w.responses ++ [response] }

@[simp] theorem moved_calls_self (call : Nat) (phase : Phase Config) :
    (w.moved call phase).calls call = phase :=
  Function.update_self ..

@[simp] theorem moved_calls_of_ne {call other : Nat} (phase : Phase Config)
    (hother : other ≠ call) :
    (w.moved call phase).calls other = w.calls other :=
  Function.update_of_ne hother ..

@[simp] theorem changed_replicas_self (i : Nat) (replica : Replica Config) :
    (w.changed i replica).replicas i = replica :=
  Function.update_self ..

@[simp] theorem changed_replicas_of_ne {i j : Nat} (replica : Replica Config) (hj : j ≠ i) :
    (w.changed i replica).replicas j = w.replicas j :=
  Function.update_of_ne hj ..

end World

/-! ## Steps -/

/-- The two orders in which the handlers read, and the whole-document endpoint. -/
inductive GetKind where
  /-- `handleGetFeed` and its like: `Current`, then `Version`. -/
  | contentFirst
  /-- `handleGetAdmins` and its like: `Version`, then `Current`. -/
  | versionFirst
  /-- `handleGetConfig`: one read of the source. -/
  | whole
  deriving DecidableEq, Repr

/-- What can happen next; a flag says whether the outside world plays along. -/
inductive Step where
  | submit (call : Nat) (request : Request)
  | acquire (call : Nat) (works : Bool)
  | prepare (call : Nat) (works : Bool)
  | enter (call : Nat)
  | compare (call : Nat) (works : Bool)
  | put (call : Nat) (works : Bool)
  | swap (call : Nat)
  | leave (call : Nat)
  | reload (call replica : Nat)
  | reread (call : Nat) (works : Bool)
  | reswap (call : Nat)
  | get (call replica : Nat) (kind : GetKind)
  | finishGet (call : Nat)

/-- What `mutateDocument`, or `replaceDocument`, makes of the stored document, up to the mutex of
`Update`.  The write is conditional on the version read, even when the caller sent none. -/
def prepareWrite (codec : Codec Config) (request : Request) (stored : Document) :
    Except EditError (Write Config) :=
  match request.edit with
  | .replace raw =>
    match codec.check raw with
    | .error message => .error (.invalid message)
    | .ok config => .ok ⟨raw, config, request.ifMatch, true⟩
  | edit =>
    if request.ifMatch ≠ "" ∧ request.ifMatch ≠ codec.version stored then
      .error (.versionConflict (codec.version stored) request.ifMatch)
    else
      match codec.applied edit stored with
      | .error message => .error (.invalid message)
      | .ok (updated, reported) =>
        match codec.check updated with
        | .error message => .error (.invalid message)
        | .ok config => .ok ⟨updated, config, codec.version stored, reported⟩

def Write.result (codec : Codec Config) (write : Write Config) : Except EditError String :=
  if write.reported then .ok (codec.version write.updated) else .error .notFound

namespace Step

def acquired (w : World Config) (call : Nat) (works : Bool) : World Config :=
  match w.calls call with
  | .waiting request =>
    if !works then w.moved call (.answered request (.error .lockUnavailable))
    else if w.lock = none then { w with lock := some call }.moved call (.locked request)
    else w
  | _ => w

def preparing (codec : Codec Config) (w : World Config) (call : Nat) (works : Bool) :
    World Config :=
  match w.calls call with
  | .locked request =>
    if !works then w.moved call (.leaving request (.error .unreadable))
    else
      match prepareWrite codec request w.stored with
      | .error error => w.moved call (.leaving request (.error error))
      | .ok write => w.moved call (.prepared request write)
  | _ => w

def entering (w : World Config) (call : Nat) : World Config :=
  match w.calls call with
  | .prepared request write =>
    if (w.replicas request.replica).busy = none then
      (w.enter request.replica call).moved call (.comparing request write)
    else w
  | _ => w

def compared (codec : Codec Config) (w : World Config) (call : Nat) (works : Bool) :
    World Config :=
  match w.calls call with
  | .comparing request write =>
    if write.expected = "" then w.moved call (.putting request write)
    else if !works then
      (w.exit request.replica).moved call (.leaving request (.error .unreadable))
    else if codec.version w.stored ≠ write.expected then
      (w.exit request.replica).moved call
        (.leaving request (.error (.versionConflict (codec.version w.stored) write.expected)))
    else w.moved call (.putting request write)
  | _ => w

def written (w : World Config) (call : Nat) (works : Bool) : World Config :=
  match w.calls call with
  | .putting request write =>
    if !works then
      (w.exit request.replica).moved call (.leaving request (.error .notWritten))
    else
      (w.stores ⟨call, request, w.stored, write.updated⟩ write.reported).moved call
        (.swapping request write)
  | _ => w

def swapped (codec : Codec Config) (w : World Config) (call : Nat) : World Config :=
  match w.calls call with
  | .swapping request write =>
    let next : Replica Config := ⟨codec.version write.updated, write.config, write.updated, none⟩
    (w.changed request.replica next).moved call (.leaving request (write.result codec))
  | _ => w

def left (w : World Config) (call : Nat) : World Config :=
  match w.calls call with
  | .leaving request result => { w with lock := none }.moved call (.answered request result)
  | _ => w

/-- `Reload`: the read under the mutex. -/
def rereading (codec : Codec Config) (w : World Config) (call : Nat) (works : Bool) :
    World Config :=
  match w.calls call with
  | .reloading i =>
    if !works then (w.exit i).moved call .idle
    -- An unchanged document is not swapped.
    else if codec.version w.stored = (w.replicas i).version then (w.exit i).moved call .idle
    else
      match codec.check w.stored with
      | .error _ => (w.exit i).moved call .idle
      | .ok config => w.moved call (.reloaded i w.stored config)
  | _ => w

def reswapped (codec : Codec Config) (w : World Config) (call : Nat) : World Config :=
  match w.calls call with
  | .reloaded i raw config => (w.changed i ⟨codec.version raw, config, raw, none⟩).moved call .idle
  | _ => w

/-- The first read of a `GET`; only `Version` takes the mutex. -/
def getting (codec : Codec Config) (w : World Config) (call i : Nat) : GetKind → World Config
  | .contentFirst => w.moved call (.gotContent i (w.replicas i).config (w.replicas i).document)
  | .versionFirst =>
    if (w.replicas i).busy = none then w.moved call (.gotVersion i (w.replicas i).version) else w
  | .whole => w.responded ⟨w.stored, codec.version w.stored⟩

/-- The second read of a `GET`, and its answer. -/
def got (w : World Config) (call : Nat) : World Config :=
  match w.calls call with
  | .gotContent i _ document =>
    if (w.replicas i).busy = none then
      (w.responded ⟨document, (w.replicas i).version⟩).moved call .idle
    else w
  | .gotVersion i version =>
    (w.responded ⟨(w.replicas i).document, version⟩).moved call .idle
  | _ => w

def free (w : World Config) (call : Nat) : Bool :=
  match w.calls call with
  | .idle => true
  | _ => false

def act (codec : Codec Config) : Step → World Config → World Config
  | submit call request, w => if free w call then w.moved call (.waiting request) else w
  | acquire call works, w => acquired w call works
  | prepare call works, w => preparing codec w call works
  | enter call, w => entering w call
  | compare call works, w => compared codec w call works
  | put call works, w => written w call works
  | swap call, w => swapped codec w call
  | leave call, w => left w call
  | reload call i, w =>
    if free w call ∧ (w.replicas i).busy = none then
      (w.enter i call).moved call (.reloading i)
    else w
  | reread call works, w => rereading codec w call works
  | reswap call, w => reswapped codec w call
  | get call i kind, w => if free w call then getting codec w call i kind else w
  | finishGet call, w => got w call

end Step

end FondacoFormal.Admin
