import FondacoFormal.Server.Read

/-!
# Groups

A group is a read-only view over feeds of one format.  An artifact comes from the
first member that has it; a document that lists what exists is merged from all
members.  Each member is asked under its own rules.
-/

namespace FondacoFormal.Server

open Library Pipeline Api Auth

/-- `feedRuntime` of a group. -/
structure ReadGroup where
  feed : Feed
  module : FormatModule
  chain : Chain
  members : List ReadFeed

/-- `memberResult`; beside an answer stands the artifact its policies were shown. -/
inductive MemberResult where
  | answered (result : Result) (shown : ServedArtifact)
  | blocked (reason : String)
  | missing (error : Option Failure)
  deriving DecidableEq

variable (server : ReadServer)

/-! ## One member -/

/-- `digestOf`. -/
def digestOf (headers : List (String × String)) : String :=
  (headers.findSome? fun h =>
    let hex := Text.trimPrefix h.2 "sha256:"
    if Text.hasPrefix h.2 "sha256:" && hex.utf8ByteSize = 64 then some hex else none).getD ""

/-- A module's own answer to a search, as a result: a refusal is not an answer. -/
def searchResult (member : ReadFeed) (intent : Intent) (answer : SyntheticResponse) :
    Except Failure Result :=
  if answer.status = 404 then
    .error (.wrapping .notFound
      ("feed " ++ member.feed.name ++ " does not have " ++ intent.coord.text))
  else if 400 ≤ answer.status then
    .error ⟨none, "feed " ++ member.feed.name ++ " refused the request with status " ++
      toString answer.status⟩
  else
    .ok
      { body := answer.body
        size := answer.body.length
        sha256 := digestOf answer.headers
        source := .here
        contentType := header answer.headers "Content-Type" }

/-- `answerFromMember`. -/
def answerFromMember (member : ReadFeed) (intent : Intent) : Reading Result :=
  if intent.kind = .search ∧ member.hosted ∧ member.upstream.isNone then
    match member.module.search with
    | none =>
      .fail (.wrapping .notFound ("feed " ++ member.feed.name ++ " cannot answer a search"))
    | some search => do
      let answer ← searchHosted server search member.feed intent
      .lift (searchResult member intent answer)
  else serve server.env (member.request intent)

def offerResult (member : ReadFeed) (id : Identity) (intent : Intent) (result : Result) :
    Reading MemberResult := do
  let metadata ← artifactMetadata server member intent
  let shown := servedArtifact intent result metadata
  let verdict := member.chain.onServe id shown
  if verdict.allow then pure (.answered result shown) else pure (.blocked verdict.reason)

/-- `askMember`. -/
def askMember (member : ReadFeed) (id : Identity) (intent : Intent) : Reading MemberResult :=
  if !(mayServe server.engine id member.feed.name intent).allowed then pure (.missing none)
  else do
    let (isBlocked, reason) ← blocked server member.feed.name intent.coord.text
    if isBlocked then pure (.blocked reason)
    else if !(member.chain.onResolve id intent.coord).allow then
      pure (.blocked (member.chain.onResolve id intent.coord).reason)
    else
      match ← (answerFromMember server member intent).attempt with
      | .error error =>
        pure (.missing (if error.wraps = some .notFound then none else some error))
      | .ok result => offerResult server member id intent result

/-! ## All members -/

structure Refused where
  blocked : List (String × String) := []
  failures : List Failure := []

def Refused.note (refused : Refused) (member : String) : MemberResult → Refused
  | .answered .. => refused
  | .blocked reason => { refused with blocked := refused.blocked ++ [(member, reason)] }
  | .missing none => refused
  | .missing (some error) =>
    { refused with failures := refused.failures ++ [.within member error] }

/-- `answerEmptyGroup`. -/
def answerEmptyGroup (group : ReadGroup) (refused : Refused) : Response :=
  match refused.blocked, refused.failures with
  | b :: rest, _ =>
    writeError server.env.site (some .quarantined)
      (Text.join ((b :: rest).map fun entry => entry.1 ++ ": " ++ entry.2) "; ")
  | [], error :: _ => writeError server.env.site error.wraps ""
  | [], [] =>
    writeError server.env.site (some .notFound) ("no member of " ++ group.feed.name ++ " has it")

def firstHitResponse (req : ReadRequest) (member : ReadFeed) (intent : Intent) (result : Result) :
    Reading Response := do
  let named := [("X-Registry-Member", member.feed.name)]
  match ← tryRedirect server req member intent result named with
  | some response => pure response
  | none => pure (streamResult server.env.site member intent result named)

structure Hit where
  member : ReadFeed
  result : Result
  shown : ServedArtifact

/-- The first hit among the members still to be asked, or what they left behind. -/
def findFirst (id : Identity) (intent : Intent) :
    List ReadFeed → Refused → Reading (Except Refused Hit)
  | [], refused => pure (.error refused)
  | member :: rest, refused => do
    match ← askMember server member id intent with
    | .answered result shown => pure (.ok ⟨member, result, shown⟩)
    | outcome => findFirst id intent rest (refused.note member.feed.name outcome)

/-- `serveFirstHit`. -/
def serveFirstHit (group : ReadGroup) (id : Identity) (req : ReadRequest) (intent : Intent) :
    Reading Response := do
  match ← findFirst server id intent group.members {} with
  | .ok hit => firstHitResponse server req hit.member intent hit.result
  | .error refused => pure (answerEmptyGroup server group refused)

/-- `maxMergePart`. -/
def maxMergePart : Nat := 32 * 2 ^ 20

def askAll (id : Identity) (intent : Intent) :
    List ReadFeed → Reading (List (String × MemberResult))
  | [] => pure []
  | member :: rest => do
    let outcome ← askMember server member id intent
    let others ← askAll id intent rest
    pure ((member.feed.name, outcome) :: others)

def addPart (collected : List GroupPart × Refused) (asked : String × MemberResult) :
    List GroupPart × Refused :=
  match asked.2 with
  | .answered result _ =>
    if maxMergePart < result.body.length then
      (collected.1, collected.2.note asked.1
        (.missing (some ⟨none, "index document exceeds " ++ toString maxMergePart ++ " bytes"⟩)))
    else (collected.1 ++ [⟨asked.1, result.body⟩], collected.2)
  | outcome => (collected.1, collected.2.note asked.1 outcome)

def collectParts (outcomes : List (String × MemberResult)) : List GroupPart × Refused :=
  outcomes.foldl addPart ([], {})

def mergedResponse (intent : Intent) (parts : List GroupPart) (body : Bytes) : Response where
  status := 200
  headers := [("X-Registry-Source", "local"), ("X-Registry-Site", server.env.site),
    ("X-Registry-Merged", Text.join (parts.map (·.feed)) ","),
    ("Content-Type", responseContentType intent ""), ("Content-Length", toString body.length)]
  body := body

/-- What `serveMerged` answers with the parts it got. -/
def answerMerged (group : ReadGroup) (merger : GroupMerger) (intent : Intent)
    (parts : List GroupPart) (refused : Refused) : Response :=
  if parts = [] then answerEmptyGroup server group refused
  else
    match merger.merge group.feed intent parts with
    | .error error => writeError server.env.site error.wraps ""
    | .ok body => mergedResponse server intent parts body

/-- `serveMerged`. -/
def serveMerged (group : ReadGroup) (merger : GroupMerger) (id : Identity) (intent : Intent) :
    Reading Response := do
  let outcomes ← askAll server id intent group.members
  let (parts, refused) := collectParts outcomes
  pure (answerMerged server group merger intent parts refused)

/-! ## The handler -/

def mergerFor (module : FormatModule) (intent : Intent) : Option GroupMerger :=
  match module.groupMerger with
  | none => none
  | some merger => if merger.mergeableIntent intent then some merger else none

/-- What `groupHandler` does once the group's own rules have let the request through. -/
def answerGroup (group : ReadGroup) (id : Identity) (req : ReadRequest) (intent : Intent) :
    Reading Response :=
  if intent.kind = .synthetic then pure (serveSynthetic server group.module group.feed intent)
  else
    match mergerFor group.module intent with
    | some merger => serveMerged server group merger id intent
    | none => serveFirstHit server group id req intent

def admitGroup (group : ReadGroup) (id : Identity) (req : ReadRequest) :
    Reading (Except Response Intent) :=
  match group.module.parse req with
  | .error error => pure (.error (writeErrorText server.env.site error))
  | .ok intent =>
    let decision := mayServe server.engine id group.feed.name intent
    if !decision.allowed then pure (.error (writeAccessError server.env.site id decision))
    else do
      let (isBlocked, reason) ← blocked server group.feed.name intent.coord.text
      if isBlocked then pure (.error (writeError server.env.site (some .quarantined) reason))
      else if !(group.chain.onResolve id intent.coord).allow then
        pure (.error (writeError server.env.site (some .forbidden)
          (group.chain.onResolve id intent.coord).reason))
      else pure (.ok intent)

/-- `groupHandler` once the caller is identified. -/
def groupHandler (group : ReadGroup) (id : Identity) (req : ReadRequest) : Reading Response := do
  match ← admitGroup server group id req with
  | .error response => pure response
  | .ok intent => answerGroup server group id req intent

end FondacoFormal.Server
