import FondacoFormal.Access.Config
import FondacoFormal.Server.Hosting

/-!
# Publishing here or at the home site

The write chain of a feed: the checks on the caller, then either the module with `publishDeps`,
or, when the feed is homed at another site, `forwardPublish`.
-/

namespace FondacoFormal.Server

open Library State Repl Pipeline Auth Access

/-! ## Feeds and servers -/

/-- `api.Artifact`. -/
structure Artifact where
  coord : String
  size : Int
  sha256 : String
  metadata : Metadata
  deriving DecidableEq

/-- `api.Decision`. -/
structure Verdict where
  allow : Bool
  reason : String := ""
  deriving DecidableEq, Repr

/-- `api.Hoster`. -/
structure Hoster where
  /-- An `api.PublishResponder`: the module writes its own response. -/
  responds : Bool
  handle : String → Request → Handling
  /-- `Reindex`: the index documents are stored again. -/
  reindex : SiteState → Table String Bytes → Table String Bytes
  /-- `AuthChallenge`; empty if there is none. -/
  challenge : String := ""

/-- `feedRuntime`, as far as writes go. -/
structure FeedRuntime where
  name : String
  named : name ≠ ""
  isLocal : Bool
  homeSite : String
  hosted : Bool
  module : Option Hoster
  /-- The policy chain; no policy looks at the identity of a publisher. -/
  onPublish : Artifact → Verdict

theorem hub_named : "hub" ≠ "" := by
  decide

/-- `Server` and its `runtime`. -/
structure ServerRuntime where
  site : String
  engine : Engine
  core : Core
  feeds : List FeedRuntime

/-- `accessIdentity`. -/
def accessIdentity (id : Identity) : AccessIdentity where
  kind := id.kind.text
  subject := id.subject
  issuer := id.issuer
  projectPath := id.projectPath
  ref := id.ref

/-- `mayPublish`. -/
def mayPublish (e : Engine) (id : Identity) (feed coordinate : String) : Decision :=
  e.explain (accessIdentity id) (feedPath feed coordinate) .publish

/-- `mayPublishSomething`. -/
def mayPublishSomething (e : Engine) (id : Identity) (feed : String) : Bool :=
  e.mayReach (accessIdentity id) (feedPath feed "") .publish

/-! ## Error responses -/

def bytesOf (s : String) : Bytes :=
  s.toUTF8.toList

/-- `finishError`. -/
def finishError (site : String) (status : Nat) (message : String) : Response where
  status := status
  headers := [("X-Registry-Source", "local"), ("X-Registry-Site", site)] ++
    (if status = 401 then
      [("WWW-Authenticate", "Basic realm=\"fondaco\", Bearer realm=\"fondaco\"")] else []) ++
    [("Content-Type", "text/plain; charset=utf-8")]
  body := bytesOf (message ++ "\n")

/-- `writeError`. -/
def writeError (site : String) (sentinel : Option Sentinel) (detail : String) : Response :=
  let (status, message) := errorStatus sentinel
  finishError site status (if detail = "" then message else message ++ ": " ++ detail)

/-- `writeErrorText`. -/
def writeErrorText (site : String) (error : Failure) : Response :=
  let (status, message) := errorStatus error.wraps
  finishError site status (if error.text = "" then message else error.text)

/-- `writeAccessError`. -/
def writeAccessError (site : String) (id : Identity) (d : Decision) : Response :=
  writeError site (some (if id.kind = .anonymous then .unauthorized else .forbidden)) d.reason

/-- `withChallenge`: a 401 carries the challenge of the module. -/
def withChallenge (challenge : String) (r : Response) : Response :=
  if r.status = 401 ∧ challenge ≠ "" then
    { r with headers := (r.headers.filter fun header => header.1 ≠ "WWW-Authenticate") ++
        [("WWW-Authenticate", challenge)] }
  else r

@[simp] theorem withChallenge_status (challenge : String) (r : Response) :
    (withChallenge challenge r).status = r.status := by
  unfold withChallenge
  split <;> rfl

@[simp] theorem withChallenge_body (challenge : String) (r : Response) :
    (withChallenge challenge r).body = r.body := by
  unfold withChallenge
  split <;> rfl

/-! ## The write itself -/

/-- `publishDeps.Publish`. -/
def depsPublish (s : ServerRuntime) (fr : FeedRuntime) (id : Identity) (given : PublishRequest)
    (h : Home) : Home × Except Failure PublishResult :=
  let req := { given with identity := id.text }
  let decision := mayPublish s.engine id fr.name req.coord
  if !decision.allowed then (h, .error (.wrapping .forbidden decision.reason))
  else
    let verdict := fr.onPublish ⟨req.coord, req.size, req.sha256, req.metadata.getD {}⟩
    if !verdict.allow then (h, .error (.wrapping .forbidden verdict.reason))
    else s.core.publish req h

def runModule (s : ServerRuntime) (fr : FeedRuntime) (hoster : Hoster) (id : Identity)
    (req : Request)
    (h : Home) : Home × Except Failure Response :=
  match (hoster.handle fr.name req).run s.core fr.name (depsPublish s fr id) h with
  | (after, .error error) => (after, .error error)
  | (after, .ok response) =>
    ({ after with objects := hoster.reindex after.site after.objects }, .ok response)

/-- What `publishHandler` answers once the module is done. -/
def publishAnswer (s : ServerRuntime) (hoster : Hoster) : Except Failure Response → Response
  | .error error => writeErrorText s.site error
  | .ok response =>
    let provenance := [("X-Registry-Source", "local"), ("X-Registry-Site", s.site)]
    if hoster.responds then { response with headers := provenance ++ response.headers }
    else ⟨201, provenance, []⟩

/-! ## The home site -/

/-- `ForwardedPublish`. -/
structure ForwardedPublish where
  feed : String
  path : Bytes
  method : String
  headers : PayloadHeaders
  body : Bytes
  identity : String
  projectPath : String

/-- A plain answer of `ApplyForwardedPublish`. -/
def plain (status : Nat) (message : String) : Response :=
  ⟨status, [], bytesOf (message ++ "\n")⟩

/-- `http.NewRequestWithContext` on what was forwarded. -/
def rebuildRequest (acceptsHost : Bytes → Bool) (call : ForwardedPublish) : Option Request :=
  let method := if call.method = "" then "PUT" else call.method
  if hvalid : validMethod method = true then
    (parseTarget acceptsHost (slash :: trimSlash call.path)).map fun target =>
      ⟨method, hvalid, target.path, target.query, call.headers, call.body⟩
  else none

/-- The identity `ApplyForwardedPublish` authorises. -/
def rebuildIdentity (call : ForwardedPublish) : Identity :=
  { parseIdentity call.identity with projectPath := call.projectPath }

/-- What `ApplyForwardedPublish` answers once the module is done. -/
def forwardedAnswer (s : ServerRuntime) (hoster : Hoster) : Except Failure Response → Response
  | .error error => writeErrorText s.site error
  | .ok response => if hoster.responds then response else plain 201 "published"

/-- `ApplyForwardedPublish`; no response is an error. -/
def applyForwardedPublish (s : ServerRuntime) (acceptsHost : Bytes → Bool) (call : ForwardedPublish)
    (h : Home) : Home × Option Response :=
  match s.feeds.find? fun fr => fr.name = call.feed with
  | none => (h, some (plain 404 ("unknown feed " ++ call.feed)))
  | some fr =>
    if !fr.isLocal then
      (h, some (plain 421 ("this site is not the home of feed " ++ call.feed)))
    else
      match fr.module, fr.hosted with
      | some hoster, true =>
        if !s.core.enabled then
          (h, some (plain 503 "publishing is unavailable: no database"))
        else
          let id := rebuildIdentity call
          if id.kind = .anonymous then
            (h, some (plain 403 "forwarded identity is not a token or OIDC subject"))
          else if !mayPublishSomething s.engine id call.feed then
            (h, some (plain 403 (mayPublish s.engine id call.feed "").reason))
          else
            match rebuildRequest acceptsHost call with
            | none => (h, none)
            | some req =>
              let (after, result) := runModule s fr hoster id req h
              (after, some (forwardedAnswer s hoster result))
      | _, _ => (h, some (plain 405 ("feed " ++ call.feed ++ " does not accept publishes")))

/-- `handlePublish` of the replication API. -/
def handlePublish (s : ServerRuntime) (acceptsHost : Bytes → Bool)
    (call : ForwardedPublish) (h : Home) :
    Home × Response :=
  if call.feed = "" ∨ call.path = [] ∨ call.identity = "" then
    (h, plain 400 "feed, path and X-Registry-On-Behalf-Of are required")
  else
    match applyForwardedPublish s acceptsHost call h with
    | (after, some response) => (after, response)
    | (after, none) => (after, plain 500 "internal error")

/-! ## The forwarding site -/

/-- `ForwardFunc`: feed, path, request, identity and project path, and the home site's stores. -/
abbrev ForwardFunc : Type :=
  String → Bytes → Request → String → String → Home → Home × Except String Response

/-- How much of an answer `ForwardPublish` reads. -/
def maxForwardedBody : Nat := 2 ^ 20

/-- `Client.ForwardPublish` to a home site that can be reached. -/
def clientForwardPublish (home : ServerRuntime) (acceptsHost : Bytes → Bool) : ForwardFunc :=
  fun feed path req identity projectPath h =>
    match headerValue identity, headerValue projectPath with
    | some identity, some projectPath =>
      let (after, response) := handlePublish home acceptsHost
        ⟨feed, path, req.method, req.headers, req.body, identity, projectPath⟩ h
      (after, .ok { response with body := response.body.take maxForwardedBody })
    | _, _ => (h, .error "net/http: invalid header field value")

def hopHeaders : List String :=
  ["Content-Length", "Transfer-Encoding", "Connection", "Date"]

/-- `copyForwardedHeaders`. -/
def copyForwardedHeaders (headers : List (String × String)) : List (String × String) :=
  headers.filter fun header => !hopHeaders.contains header.1

/-- `forwardPublish`; the state is that of the home site. -/
def forwardPublish (forward : Option ForwardFunc) (s : ServerRuntime) (fr : FeedRuntime)
    (id : Identity) (req : Request) (h : Home) : Home × Response :=
  let unavailable (message : String) : Response :=
    let r := finishError s.site 503 message
    { r with
      headers := [("Retry-After", "30"), ("X-Registry-Home-Site", fr.homeSite)] ++ r.headers }
  match forward with
  | none => (h, unavailable ("feed " ++ fr.name ++ " is published at site " ++ fr.homeSite ++
      "; this site cannot forward writes"))
  | some forward =>
    match forward fr.name (trimSlash req.path) req id.text id.projectPath h with
    | (after, .error error) => (after, unavailable ("home site " ++ fr.homeSite ++ " for feed " ++
        fr.name ++ " is unreachable: " ++ error))
    | (after, .ok response) =>
      (after, { response with headers :=
        (copyForwardedHeaders response.headers).filter (fun header =>
          header.1 ≠ "X-Registry-Site") ++ [("X-Registry-Site", fr.homeSite)] })

/-! ## The handler -/

/-- Why `publishHandler` refuses a caller before it reads the upload. -/
def refusal (s : ServerRuntime) (fr : FeedRuntime) (id : Identity) : Option Response :=
  if id.kind = .anonymous then
    some (writeError s.site (some .unauthorized) "authentication required to publish")
  else if id.stale then
    some (writeError s.site (some .unavailable)
      "the token backend is unavailable, so this credential cannot be verified for a write")
  else if !mayPublishSomething s.engine id fr.name then
    some (writeAccessError s.site id (mayPublish s.engine id fr.name ""))
  else none

/-- `publishHandler` once the caller is identified; the state is that of the feed's home site. -/
def publishHandler (forward : Option ForwardFunc) (s : ServerRuntime) (fr : FeedRuntime)
    (hoster : Hoster) (id : Identity) (req : Request) (h : Home) : Home × Response :=
  let (after, response) :=
    match refusal s fr id with
    | some response => (h, response)
    | none =>
      if !fr.isLocal then forwardPublish forward s fr id req h
      else if !s.core.enabled then
        (h, writeError s.site (some .unavailable) "publishing is unavailable: no database")
      else
        let (after, result) := runModule s fr hoster id req h
        (after, publishAnswer s hoster result)
  (after, withChallenge hoster.challenge response)

end FondacoFormal.Server
