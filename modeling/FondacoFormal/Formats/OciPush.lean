import FondacoFormal.Formats.Oci

/-!
# Pushes under way at the same time

Any number of push requests are under way at one site. A step is one operation of one of them:
a request to the blob store, a listing, or a publish, which is one transaction.
-/

namespace FondacoFormal.Formats.Oci

open Library Pipeline Server Auth

/-! ## State -/

structure Registry where
  server : ServerRuntime
  backend : Storage.Backend
  /-- `json.Unmarshal` into a `manifestDoc`. -/
  unmarshal : Bytes → Except String ManifestDoc

namespace Registry

def core (r : Registry) : Core :=
  r.server.core

/-- `sha256Hex`. -/
def hash (r : Registry) : Bytes → String :=
  r.core.hash

end Registry

/-- A request to a hosted feed under way, with what the module does next. -/
structure PushCall where
  feed : FeedRuntime
  identity : Identity
  request : Request
  handling : Handling
  /-- The object of an S3 `Put` is uploaded and checked next. -/
  uploaded : Bool := false

structure Pushing where
  home : Home
  calls : Nat → Option PushCall := fun _ => none

namespace Pushing

def goesOn (w : Pushing) (i : Nat) (call : PushCall) (home : Home) (handling : Handling) :
    Pushing where
  home := home
  calls := Function.update w.calls i (some { call with handling := handling, uploaded := false })

def ends (w : Pushing) (i : Nat) : Pushing :=
  { w with calls := Function.update w.calls i none }

end Pushing

/-! ## `Put` of the S3 store -/

/-- `PutObject`. -/
def upload (core : Core) (w : Pushing) (i : Nat) (call : PushCall) (key : String) (content : Bytes)
    (next : Except Failure Unit → Handling) : Pushing :=
  let after := { w.home with ticks := w.home.ticks + 1 }
  match core.fault w.home.ticks with
  | some error => w.goesOn i call after (next (.error (error.within ("put blob " ++ key))))
  | none =>
    { home := { after with objects := after.objects.put key content }
      calls := Function.update w.calls i (some { call with uploaded := true }) }

/-- The comparison: `RemoveObject`, whose error is ignored, or `CopyObject` onto itself. -/
def settle (core : Core) (w : Pushing) (i : Nat) (call : PushCall) (key : String) (content : Bytes)
    (opts : Storage.PutOpts) (next : Except Failure Unit → Handling) : Pushing :=
  let after := { w.home with ticks := w.home.ticks + 1 }
  let removed := { after with objects := after.objects.keep fun k _ => k ≠ key }
  let attaching := "put blob " ++ key ++ ": attach digest metadata"
  match Storage.verify core.hash opts content, core.fault w.home.ticks with
  | some error, fault =>
    let failure : Failure := match error with
      | .checksumMismatch => .wrapping .checksumMismatch ("put blob " ++ key)
      | _ => ⟨none, "put blob " ++ key⟩
    w.goesOn i call (if fault.isSome then after else removed) (next (.error failure))
  | none, some error => w.goesOn i call after (next (.error (error.within attaching)))
  | none, none =>
    match w.home.object key with
    | .error error => w.goesOn i call after (next (.error (error.within attaching)))
    | .ok _ => w.goesOn i call after (next (.ok ()))

/-! ## Steps -/

inductive PushStep where
  | receive (i : Nat) (feed : FeedRuntime) (identity : Identity) (req : Request)
  | advance (i : Nat)

def advance (r : Registry) (w : Pushing) (i : Nat) (call : PushCall) : Pushing :=
  match call.handling with
  | .respond _ | .fail _ => w.ends i
  | .publish req next =>
    let (home, result) := depsPublish r.server call.feed call.identity req w.home
    w.goesOn i call home (next result)
  | .ask what next =>
    match r.backend, what, next with
    | .s3, .put key content opts, next =>
      if call.uploaded then settle r.core w i call key content opts next
      else upload r.core w i call key content next
    | _, what, next =>
      let (home, answer) := what.run r.core call.feed.name w.home
      w.goesOn i call home (next answer)

/-- One step; a request is taken up if `publishHandler` lets it through. -/
def PushStep.run (r : Registry) : PushStep → Pushing → Pushing
  | receive i feed identity req, w =>
    if (w.calls i).isSome || (Server.refusal r.server feed identity).isSome || !feed.isLocal ||
        !r.core.enabled then w
    else
      let call : PushCall :=
        { feed := feed
          identity := identity
          request := req
          handling := handlePublishHTTP r.hash r.unmarshal feed.name req }
      { w with calls := Function.update w.calls i (some call) }
  | advance i, w =>
    match w.calls i with
    | none => w
    | some call => Oci.advance r w i call

end FondacoFormal.Formats.Oci
