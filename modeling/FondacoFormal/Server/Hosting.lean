import FondacoFormal.Pipeline.Projection
import FondacoFormal.Server.Http
import FondacoFormal.Storage.Put

/-!
# Hosting modules

A format module that handles a write reads the request, uses the blob store and commits
coordinates through `CoreServices.Publish`.
-/

namespace FondacoFormal.Server

open Library State Repl Pipeline

/-! ## Errors -/

/-- The sentinel errors of `core/api`. -/
inductive Sentinel where
  | notFound
  | unauthorized
  | forbidden
  | checksumMismatch
  | upstreamUnavailable
  | unavailable
  | immutable
  | quarantined
  | badRequest
  deriving DecidableEq, Repr

def Sentinel.text : Sentinel → String
  | notFound => "not found"
  | unauthorized => "unauthorized"
  | forbidden => "forbidden"
  | checksumMismatch => "checksum mismatch"
  | upstreamUnavailable => "upstream unavailable"
  | unavailable => "temporarily unavailable"
  | immutable => "published release is immutable"
  | quarantined => "coordinate is quarantined"
  | badRequest => "bad request"

structure Failure where
  wraps : Option Sentinel
  text : String
  deriving DecidableEq, Repr

/-- `fmt.Errorf("..: %w", sentinel)`. -/
def Failure.wrapping (sentinel : Sentinel) (text : String) : Failure :=
  ⟨some sentinel, text ++ ": " ++ sentinel.text⟩

/-- `fmt.Errorf("<context>: %w", err)`. -/
def Failure.within (context : String) (error : Failure) : Failure :=
  ⟨error.wraps, context ++ ": " ++ error.text⟩

/-- `errorStatus`. -/
def errorStatus : Option Sentinel → Nat × String
  | some .notFound => (404, "not found")
  | some .unauthorized => (401, "unauthorized")
  | some .forbidden => (403, "forbidden")
  | some .checksumMismatch => (502, "upstream artifact failed checksum verification")
  | some .upstreamUnavailable => (502, "upstream unavailable and no cached copy")
  | some .unavailable => (503, "temporarily unavailable")
  | some .immutable => (409, "published release is immutable")
  | some .quarantined => (409, "coordinate is quarantined")
  | some .badRequest => (400, "bad request")
  | none => (500, "internal error")

/-! ## The site a module works for -/

/-- The stores of a site, and the publishes that wrote a row (history, oldest first). -/
structure Home where
  site : SiteState := {}
  objects : Table String Bytes := ∅
  projections : Table PathKey Manifest := ∅
  /-- Operations so far; the environment answers each one anew. -/
  ticks : Nat := 0
  committed : List PublishRequest := []

structure Core where
  publisher : Publisher
  enabled : Bool
  hash : Bytes → String
  clock : Nat → TxClock
  now : Nat → Int
  draw : Nat → Except Failure String
  /-- The operations of the blob store and the listing that fail. -/
  fault : Nat → Option Failure

/-- The error `Publish` returns for a request it does not commit. -/
def precheckFailure (req : PublishRequest) : PublishError → Failure
  | .badRequest => .wrapping .badRequest "publish needs a path and a staged blob digest"
  | .invalidPath => .wrapping .notFound ("invalid path " ++ req.path.quote)
  | _ => .wrapping .notFound
      ("staged blob " ++ req.sha256 ++ " missing: blob " ++ Storage.blobKey req.sha256)

/-- The error `Publish` returns when the transaction failed. -/
def insertFailure (req : PublishRequest) : Fault → Failure
  | .refused _ => .wrapping .immutable (req.coord ++ " already published")
  | .sql context _ => ⟨none, context⟩
  | .park _ => ⟨none, ""⟩

def Core.record (core : Core) (req : PublishRequest) (site : SiteState) (stamp : HLC)
    (created : Bool) (h : Home) : Home :=
  { h with
    site := site
    -- a projection that cannot be stored is only logged
    projections := if (core.fault (h.ticks + 1)).isSome then h.projections
      else h.projections.put (req.feed, req.path) (projectedManifest false (core.now h.ticks)
        (publishProjection core.publisher req stamp))
    ticks := h.ticks + 2
    committed := if created then h.committed ++ [req] else h.committed }

/-- `Publisher.Publish`. -/
def Core.publish (core : Core) (req : PublishRequest) (h : Home) :
    Home × Except Failure PublishResult :=
  let after := { h with ticks := h.ticks + 2 }
  if !core.enabled then
    (after, .error (.wrapping .unavailable "publishing requires a database"))
  else
    match precheck req (h.objects.find (Storage.blobKey req.sha256)).isSome, core.fault h.ticks with
    | some .missingBlob, some error | none, some error =>
      (after, .error (.within ("staged blob " ++ req.sha256 ++ " missing") error))
    | some error, _ => (after, .error (precheckFailure req error))
    | none, none =>
      match core.publisher.insert req (core.clock h.ticks) h.site with
      | .error fault => (after, .error (insertFailure req fault))
      | .ok (site, stamp, created) =>
        (core.record req site stamp created h, .ok ⟨created, req.sha256⟩)

inductive Ask where
  | stat (key : String)
  | get (key : String)
  | put (key : String) (content : Bytes) (opts : Storage.PutOpts)
  | delete (key : String)
  | list (start : String)
  /-- `Manifests` of the feed under a path. -/
  | manifests (start : String)
  /-- `rand.Read`. -/
  | draw

def Ask.Reply : Ask → Type
  | stat _ => Nat
  | get _ => Bytes
  | put .. => Unit
  | delete _ => Unit
  | list _ => List (String × Nat)
  | manifests _ => List (PathKey × HostedRow)
  | draw => String

def startsWith (start text : String) : Bool :=
  start.toList.isPrefixOf text.toList

def Home.object (h : Home) (key : String) : Except Failure Bytes :=
  match h.objects.find key with
  | some content => .ok content
  | none => .error (.wrapping .notFound ("blob " ++ key))

/-- Why `Put` does not store. -/
def putFailure (core : Core) (key : String) (content : Bytes) (opts : Storage.PutOpts) :
    Option Failure :=
  if !Storage.keyPath key then some ⟨none, "invalid blob key " ++ key.quote⟩
  else
    match Storage.verify core.hash opts content with
    | some .checksumMismatch => some (.wrapping .checksumMismatch ("put blob " ++ key))
    | some _ => some ⟨none, "put blob " ++ key⟩
    | none => none

def Ask.answer (core : Core) (feed : String) (ask : Ask) (h : Home) :
    Home × Except Failure ask.Reply :=
  match ask with
  | stat key => (h, (h.object key).map List.length)
  | get key => (h, h.object key)
  | put key content opts =>
    match putFailure core key content opts with
    | some error => (h, .error error)
    | none => ({ h with objects := h.objects.put key content }, .ok ())
  | delete key => ({ h with objects := h.objects.keep fun k _ => k ≠ key }, .ok ())
  | list start =>
    (h, .ok (((h.objects.rows.filter fun row => startsWith start row.1).map
      fun row => (row.1, row.2.length)).insertionSort fun a b => a.1 ≤ b.1))
  | manifests start =>
    (h, .ok (listHosted core.publisher.pg feed start h.site.hosted))
  | draw => (h, core.draw h.ticks)

def Ask.run (core : Core) (feed : String) (ask : Ask) (h : Home) :
    Home × Except Failure ask.Reply :=
  let after := { h with ticks := h.ticks + 1 }
  match core.fault h.ticks with
  | some error => (after, .error error)
  | none => ask.answer core feed after

/-! ## Modules -/

structure PayloadHeaders where
  contentType : HeaderValue
  contentRange : HeaderValue
  contentEncoding : HeaderValue
  contentDisposition : HeaderValue
  accept : HeaderValue
  deriving DecidableEq

def noHeaders : PayloadHeaders where
  contentType := ⟨"", rfl⟩
  contentRange := ⟨"", rfl⟩
  contentEncoding := ⟨"", rfl⟩
  contentDisposition := ⟨"", rfl⟩
  accept := ⟨"", rfl⟩

structure Request where
  method : String
  valid : validMethod method = true
  path : Bytes
  query : Bytes
  headers : PayloadHeaders
  body : Bytes
  deriving DecidableEq

structure Response where
  status : Nat
  headers : List (String × String)
  body : Bytes
  deriving DecidableEq

inductive Handling where
  /-- The module is done; one that writes its own response wrote this one. -/
  | respond (response : Response)
  | fail (error : Failure)
  | ask (what : Ask) (next : Except Failure what.Reply → Handling)
  | publish (req : PublishRequest) (next : Except Failure PublishResult → Handling)

namespace Handling

variable (core : Core) (feed : String)
  (publishing : PublishRequest → Home → Home × Except Failure PublishResult)

/-- The module runs against a site; `publishing` is the `Publish` it was handed. -/
def run : Handling → Home → Home × Except Failure Response
  | respond response, h => (h, .ok response)
  | fail error, h => (h, .error error)
  | ask what next, h =>
    let (after, answer) := what.run core feed h
    (next answer).run after
  | publish req next, h =>
    let (after, result) := publishing req h
    (next result).run after

end Handling

/-- What a module may ask for and publish as long as it hears such answers. -/
structure Conduct where
  asks : Ask → Prop
  hears : (what : Ask) → Except Failure what.Reply → Prop
  publishes : PublishRequest → Prop

inductive Conduct.Keeps (c : Conduct) : Handling → Prop where
  | respond (response : Response) : c.Keeps (.respond response)
  | fail (error : Failure) : c.Keeps (.fail error)
  | ask {what : Ask} {next : Except Failure what.Reply → Handling} (hasks : c.asks what)
      (hnext : ∀ answer, c.hears what answer → c.Keeps (next answer)) : c.Keeps (.ask what next)
  | publish {req : PublishRequest} {next : Except Failure PublishResult → Handling}
      (hpublishes : c.publishes req) (hnext : ∀ result, c.Keeps (next result)) :
      c.Keeps (.publish req next)

end FondacoFormal.Server
