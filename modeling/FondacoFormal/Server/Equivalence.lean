import FondacoFormal.Formats.Oci
import FondacoFormal.Server.Authority

/-!
# Forwarded and direct publishes compared

A request arrives as it was sent when its path is read by the URL parser as it stands, it has
no query, and the text of the identity is carried unchanged.
-/

namespace FondacoFormal.Server

open Library Pipeline Auth Access

/-! ## One feed at two sites -/

/-- A feed at its home site and at a site that forwards, under one configuration. -/
structure Deployment where
  here : ServerRuntime
  home : ServerRuntime
  feed : FeedRuntime
  homeFeed : FeedRuntime
  hoster : Hoster
  engine : here.engine = home.engine
  name : feed.name = homeFeed.name
  remote : feed.isLocal = false
  atHome : homeFeed.isLocal = true
  found : (home.feeds.find? fun fr => fr.name = homeFeed.name) = some homeFeed
  module : homeFeed.module = some hoster
  hosted : homeFeed.hosted = true
  enabled : home.core.enabled = true

namespace Deployment

def direct (d : Deployment) (id : Identity) (req : Request) (h : Home) : Home × Response :=
  publishHandler none d.home d.homeFeed d.hoster id req h

def forwarded (d : Deployment) (acceptsHost : Bytes → Bool) (id : Identity) (req : Request)
    (h : Home) : Home × Response :=
  publishHandler (some (clientForwardPublish d.home acceptsHost)) d.here d.feed d.hoster id req h

end Deployment

/-- The headers that are part of the protocol: not those of a hop, not the provenance. -/
def protocolHeaders (headers : List (String × String)) : List (String × String) :=
  headers.filter fun header =>
    !(hopHeaders.contains header.1 || header.1 = "X-Registry-Source" ||
      header.1 = "X-Registry-Site")

/-- The same rows and objects, the same status, and the same answer if the module wrote it. -/
structure SameOutcome (responds : Bool) (direct forwarded : Home × Response) : Prop where
  rows : forwarded.1.site.hosted = direct.1.site.hosted
  objects : forwarded.1.objects = direct.1.objects
  status : forwarded.2.status = direct.2.status
  body : responds = true → forwarded.2.body = direct.2.body
  headers : responds = true → protocolHeaders forwarded.2.headers = protocolHeaders direct.2.headers

/-! ## The answer -/

variable (challenge : String)

theorem protocolHeaders_withChallenge {first second : Response}
    (hstatus : first.status = second.status)
    (hheaders : protocolHeaders first.headers = protocolHeaders second.headers) :
    protocolHeaders (withChallenge challenge first).headers =
      protocolHeaders (withChallenge challenge second).headers := by
  have hswap : ∀ headers : List (String × String),
      protocolHeaders (headers.filter fun header => header.1 ≠ "WWW-Authenticate") =
        (protocolHeaders headers).filter fun header => header.1 ≠ "WWW-Authenticate" := by
    intro headers
    simp only [protocolHeaders, List.filter_filter, Bool.and_comm]
  have happend : ∀ front back : List (String × String),
      protocolHeaders (front ++ back) = protocolHeaders front ++ protocolHeaders back :=
    fun front back => List.filter_append front back
  unfold withChallenge
  rw [hstatus]
  split
  · dsimp only
    rw [happend, happend, hswap, hswap, hheaders]
  · exact hheaders

theorem protocolHeaders_relayed (homeSite : String) (answer : Response) :
    protocolHeaders (relayed homeSite answer).headers = protocolHeaders answer.headers := by
  unfold protocolHeaders relayed copyForwardedHeaders
  rw [List.filter_append, List.filter_filter, List.filter_filter]
  simp only [List.filter_cons, List.filter_nil, decide_true, Bool.or_true, Bool.not_true,
    Bool.false_eq_true, if_false, List.append_nil]
  congr 1
  funext header
  cases hopHeaders.contains header.1 <;> by_cases hsite : header.1 = "X-Registry-Site" <;>
    simp [hsite]

theorem forwardedAnswer_status (s : ServerRuntime) (hoster : Hoster)
    (result : Except Failure Response) :
    (forwardedAnswer s hoster result).status = (publishAnswer s hoster result).status := by
  cases result with
  | error error => rfl
  | ok response =>
    dsimp only [forwardedAnswer, publishAnswer]
    split <;> rfl

theorem forwardedAnswer_content {hoster : Hoster} (hresponds : hoster.responds = true)
    (s : ServerRuntime) (result : Except Failure Response) :
    (forwardedAnswer s hoster result).body = (publishAnswer s hoster result).body ∧
      protocolHeaders (forwardedAnswer s hoster result).headers =
        protocolHeaders (publishAnswer s hoster result).headers := by
  cases result with
  | error error => exact ⟨rfl, rfl⟩
  | ok response => simp [forwardedAnswer, publishAnswer, hresponds, protocolHeaders]

/-! ## The write -/

variable {id : Identity}

section

variable {e : Engine}
  (hbound : e.boundVia (accessIdentity (bare id)) = e.boundVia (accessIdentity id))

include hbound

theorem mayPublishSomething_bare (feed : String) :
    mayPublishSomething e (bare id) feed = mayPublishSomething e id feed := by
  simp only [mayPublishSomething, Engine.mayReach, Engine.rulesFor, Engine.policiesFor, hbound]

theorem mayPublish_bare (hsubject : (bare id).subject = id.subject) (feed coordinate : String) :
    mayPublish e (bare id) feed coordinate = mayPublish e id feed coordinate := by
  have htext : (accessIdentity (bare id)).text = (accessIdentity id).text := by
    simp only [accessIdentity, AccessIdentity.text, hsubject]
    rfl
  simp only [mayPublish, Engine.explain, Engine.rulesFor, Engine.policiesFor, hbound, htext]

end

namespace Deployment

variable (d : Deployment)

section

variable (hkind : id.kind ≠ .anonymous)

include hkind

section

variable (hfresh : id.stale = false)

include hfresh

variable (hreach : mayPublishSomething d.home.engine id d.homeFeed.name = true)

include hreach

theorem refusal_home : refusal d.home d.homeFeed id = none := by
  simp [refusal, hkind, hfresh, hreach]

theorem refusal_here : refusal d.here d.feed id = none := by
  rw [← d.engine, ← d.name] at hreach
  simp [refusal, hkind, hfresh, hreach]

theorem direct_eq (req : Request) (h : Home) :
    let ran := runModule d.home d.homeFeed d.hoster id req h
    d.direct id req h =
      (ran.1, withChallenge d.hoster.challenge (publishAnswer d.home d.hoster ran.2)) := by
  unfold direct publishHandler
  rw [d.refusal_home hkind hfresh hreach]
  simp only [d.atHome, d.enabled, Bool.not_true, Bool.false_eq_true, if_false]

end

theorem applyForwardedPublish_eq
    (hreach : mayPublishSomething d.home.engine (bare id) d.homeFeed.name = true)
    (acceptsHost : Bytes → Bool) (path : Bytes) (req : Request) (h : Home) :
    applyForwardedPublish d.home acceptsHost (delivered d.feed.name path req id) h =
      match parseTarget acceptsHost (slash :: trimSlash path) with
      | none => (h, none)
      | some target =>
        let ran := runModule d.home d.homeFeed d.hoster (bare id)
          { req with path := target.path, query := target.query } h
        (ran.1, some (forwardedAnswer d.home d.hoster ran.2)) := by
  have hbare : (bare id).kind ≠ .anonymous := hkind
  have hfeed : (delivered d.feed.name path req id).feed = d.homeFeed.name := d.name
  unfold applyForwardedPublish
  simp only [hfeed, d.found, d.atHome, d.module, d.hosted, d.enabled,
    rebuildIdentity_delivered hkind, hbare, hreach, rebuildRequest_delivered, Bool.not_true,
    Bool.false_eq_true, if_false]
  cases parseTarget acceptsHost (slash :: trimSlash path) <;> rfl

end

/-- The module does the same for what is left of an identity whose text is carried. -/
theorem runModule_bare
    (hbound : d.home.engine.boundVia (accessIdentity (bare id)) =
      d.home.engine.boundVia (accessIdentity id))
    (hsubject : (bare id).subject = id.subject) (req : Request) (h : Home) :
    runModule d.home d.homeFeed d.hoster (bare id) req h =
      runModule d.home d.homeFeed d.hoster id req h := by
  have htext : (bare id).text = id.text := by
    unfold Identity.text
    rw [hsubject]
    rfl
  have hdeps : depsPublish d.home d.homeFeed (bare id) = depsPublish d.home d.homeFeed id := by
    funext given after
    simp only [depsPublish, mayPublish_bare hbound hsubject, htext]
  unfold runModule
  rw [hdeps]

/-- What the client and the home site see of a forwarded request with an intact path. -/
theorem forwarded_eq (hkind : id.kind ≠ .anonymous) (hfresh : id.stale = false) {req : Request}
    (hwhole : mayPublishSomething d.home.engine id d.homeFeed.name = true)
    (hbare : mayPublishSomething d.home.engine (bare id) d.homeFeed.name = true)
    (hsend : Sendable id) (hpath : IntactPath req.path) (hquery : req.query = [])
    (acceptsHost : Bytes → Bool) (h : Home) :
    let ran := runModule d.home d.homeFeed d.hoster (bare id) req h
    d.forwarded acceptsHost id req h = (ran.1, withChallenge d.hoster.challenge
      (relayed d.feed.homeSite (forwardedAnswer d.home d.hoster ran.2))) := by
  obtain ⟨hnonempty, hparse⟩ :=
    (parseTarget_trimmed_iff acceptsHost req.path req.query).mpr ⟨hpath, hquery⟩
  unfold forwarded
  rw [publishHandler_forwarded (d.refusal_here hkind hfresh hwhole) d.remote hsend hnonempty,
    d.applyForwardedPublish_eq hkind hbare, hparse]
  rfl

end Deployment

/-! ## The request that arrives -/

structure Survives (req : Request) (id : Identity) : Prop where
  path : IntactPath req.path
  query : req.query = []
  sendable : Sendable id
  subject : (bare id).subject = id.subject

/-- The home site takes the request, rebuilds it as it was sent, and writes in the name of its
publisher. -/
structure Arrives (acceptsHost : Bytes → Bool) (feed : String) (req : Request) (id : Identity) :
    Prop where
  identity : headerValue id.text = some id.text
  project : (headerValue id.projectPath).isSome = true
  path : trimSlash req.path ≠ []
  request : rebuildRequest acceptsHost (delivered feed (trimSlash req.path) req id) = some req

variable {req : Request}

theorem arrives_iff (acceptsHost : Bytes → Bool) (feed : String) :
    Arrives acceptsHost feed req id ↔ Survives req id := by
  have hidentity : headerValue id.text = some id.text ↔
      id.subject.toList.any controlChar = false ∧ (bare id).subject = id.subject := by
    rw [headerValue_text]
    cases id.subject.toList.any controlChar with
    | true => simp
    | false => simp [Identity.text, String.append_right_inj]
  have hproject : (headerValue id.projectPath).isSome = true ↔
      id.projectPath.toList.any controlChar = false := by
    rw [headerValue_projectPath]
    cases id.projectPath.toList.any controlChar <;> simp
  have hrequest : rebuildRequest acceptsHost (delivered feed (trimSlash req.path) req id) =
      some req ↔ parseTarget acceptsHost (slash :: trimSlash (trimSlash req.path)) =
        some ⟨req.path, req.query⟩ := by
    rw [rebuildRequest_delivered, Option.map_eq_some_iff]
    constructor
    · rintro ⟨target, hparse, hsame⟩
      rw [hparse, ← hsame]
    · exact fun hparse => ⟨_, hparse, rfl⟩
  constructor
  · intro harrives
    obtain ⟨hsubject, hcarried⟩ := hidentity.mp harrives.identity
    obtain ⟨hpath, hquery⟩ := (parseTarget_trimmed_iff acceptsHost req.path req.query).mp
      ⟨harrives.path, hrequest.mp harrives.request⟩
    exact ⟨hpath, hquery, ⟨hsubject, hproject.mp harrives.project⟩, hcarried⟩
  · intro hsurvives
    obtain ⟨hpath, hparse⟩ := (parseTarget_trimmed_iff acceptsHost req.path req.query).mpr
      ⟨hsurvives.path, hsurvives.query⟩
    exact ⟨hidentity.mpr ⟨hsurvives.sendable.1, hsurvives.subject⟩,
      hproject.mpr hsurvives.sendable.2, hpath, hrequest.mpr hparse⟩

/--
Whatever module hosts the feed and whatever the home site has stored: a request of an identity
that both sites authorise has the same outcome either way, if the home site's bindings select
what is left of the identity as they select the identity, and if the answer is one the
forwarding site reads to the end.
-/
def ForwardingEquivalent (req : Request) (id : Identity) : Prop :=
  ∀ (d : Deployment) (acceptsHost : Bytes → Bool) (h : Home),
    mayPublishSomething d.home.engine id d.homeFeed.name = true →
    d.home.engine.boundVia (accessIdentity (bare id)) =
      d.home.engine.boundVia (accessIdentity id) →
    (d.direct id req h).2.body.length ≤ maxForwardedBody →
    SameOutcome d.hoster.responds (d.direct id req h) (d.forwarded acceptsHost id req h)

theorem Survives.equivalent (hsurvives : Survives req id) (hkind : id.kind ≠ .anonymous)
    (hfresh : id.stale = false) : ForwardingEquivalent req id := by
  intro d acceptsHost h hauth hbound hfits
  have hbare := (mayPublishSomething_bare hbound d.homeFeed.name).trans hauth
  rw [d.direct_eq hkind hfresh hauth] at hfits ⊢
  rw [d.forwarded_eq hkind hfresh hauth hbare hsurvives.sendable hsurvives.path hsurvives.query,
    d.runModule_bare hbound hsurvives.subject]
  have hstatus := forwardedAnswer_status d.home d.hoster
    (runModule d.home d.homeFeed d.hoster id req h).2
  refine ⟨rfl, rfl, ?_, ?_, ?_⟩
  · simpa [relayed] using hstatus
  · intro hresponds
    simp only [withChallenge_body, relayed] at hfits ⊢
    rw [(forwardedAnswer_content hresponds _ _).1, List.take_of_length_le hfits]
  · intro hresponds
    refine protocolHeaders_withChallenge _ hstatus ?_
    rw [protocolHeaders_relayed, (forwardedAnswer_content hresponds _ _).2]

/-- Exactly the requests that survive reach the home site's module as they were sent, and these
have the same outcome for every hosting module. -/
theorem forwarded_publish_equivalent (req : Request) (id : Identity)
    (hkind : id.kind ≠ .anonymous) (hfresh : id.stale = false) :
    (∀ acceptsHost feed, Arrives acceptsHost feed req id ↔ Survives req id) ∧
      (Survives req id → ForwardingEquivalent req id) :=
  ⟨arrives_iff, fun hsurvives => hsurvives.equivalent hkind hfresh⟩

/-- An upload to a plain path by a token. -/
theorem forwarded_publish_equivalent_plain :
    ForwardingEquivalent plainRequest { kind := .token, subject := "t" } :=
  (forwarded_publish_equivalent plainRequest { kind := .token, subject := "t" } nofun rfl).2
    { path := ⟨[97], rfl, by decide, by decide, List.forall_mem_singleton.mpr (by decide)⟩
      query := rfl
      sendable := by decide
      subject := by decide }

def openEngine : Engine where
  policies := [⟨"all", [⟨"feed/hub/*", [.publish], "all"⟩]⟩]
  bindings := [⟨"", ["all"], {}⟩]

def localHub (hoster : Hoster) : FeedRuntime :=
  { remoteHub with isLocal := true, module := some hoster }

def openSites (hash : Bytes → String) (hoster : Hoster) : Deployment where
  here := ⟨"here", openEngine, calmCore, []⟩
  home := ⟨"home", openEngine, { calmCore with hash := hash }, [localHub hoster]⟩
  feed := remoteHub
  homeFeed := localHub hoster
  hoster := hoster
  engine := rfl
  name := rfl
  remote := rfl
  atHome := rfl
  found := by simp
  module := rfl
  hosted := rfl
  enabled := rfl

/-! ## The last request of a push -/

def layerDigest : String :=
  String.ofList (List.replicate 64 'a')

def uploadSession : String := "0123abcd"

/-- `PUT /v2/app/blobs/uploads/0123abcd?digest=sha256:aa..` -/
def finishPush : Request :=
  ⟨"PUT", validMethod_put, bytesOf ("/v2/app/blobs/uploads/" ++ uploadSession),
    bytesOf ("digest=sha256:" ++ layerDigest), noHeaders, []⟩

def imageSites : Deployment :=
  openSites (fun _ => layerDigest)
    (Formats.Oci.hoster (fun _ => layerDigest) fun _ => .error "unexpected end of JSON input")

def halfPushed : Home where
  objects := Table.put ∅ (Formats.Oci.partKey "hub" "app" uploadSession 0) [1]

def pusher : Identity := { kind := .token, subject := "t" }

/-- The digest is in the query: the push ends well at the home site and fails elsewhere. -/
theorem forwarded_push_fails : ¬ ForwardingEquivalent finishPush pusher := by
  intro hequivalent
  have hdirect : (imageSites.direct pusher finishPush halfPushed).2.status = 201 ∧
      (imageSites.direct pusher finishPush halfPushed).2.body.length ≤ maxForwardedBody := by
    decide +kernel
  have hforwarded :
      (imageSites.forwarded (fun _ => false) pusher finishPush halfPushed).2.status = 400 := by
    decide +kernel
  have hstatus := (hequivalent imageSites (fun _ => false) halfPushed (by decide +kernel)
    (by decide +kernel) hdirect.2).status
  rw [hdirect.1, hforwarded] at hstatus
  exact absurd hstatus (by decide)

end FondacoFormal.Server
