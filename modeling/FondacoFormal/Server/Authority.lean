import FondacoFormal.Server.Forwarding

/-!
# The authority of a forwarded publish

The home site authorises what it rebuilt from two headers: the kind and the subject of the
identity, and its project path.
-/

namespace FondacoFormal.Server

open Library Repl Pipeline Auth Access

/-! ## What a write commits -/

def CommitsOnly (test : PublishRequest → Prop) (before after : Home) : Prop :=
  ∀ r ∈ after.committed.drop before.committed.length, test r

def Adds (test : PublishRequest → Prop) (before after : Home) : Prop :=
  ∃ new, after.committed = before.committed ++ new ∧ ∀ r ∈ new, test r

namespace Adds

variable {test : PublishRequest → Prop} {a b c : Home}

theorem of_eq (heq : b.committed = a.committed) : Adds test a b :=
  ⟨[], by simp [heq], List.forall_mem_nil _⟩

theorem trans (hfirst : Adds test a b) (hsecond : Adds test b c) : Adds test a c := by
  obtain ⟨first, hb, hfirst⟩ := hfirst
  obtain ⟨second, hc, hsecond⟩ := hsecond
  exact ⟨first ++ second, by rw [hc, hb, List.append_assoc],
    List.forall_mem_append.mpr ⟨hfirst, hsecond⟩⟩

theorem imp {other : PublishRequest → Prop} (h : Adds test a b) (himp : ∀ r, test r → other r) :
    Adds other a b := by
  obtain ⟨new, hb, hnew⟩ := h
  exact ⟨new, hb, fun r hr => himp r (hnew r hr)⟩

theorem commitsOnly (h : Adds test a b) : CommitsOnly test a b := by
  obtain ⟨new, hb, hnew⟩ := h
  intro r hr
  rw [hb, List.drop_left] at hr
  exact hnew r hr

end Adds

theorem Ask.run_committed (core : Core) (feed : String) (ask : Ask) (h : Home) :
    (ask.run core feed h).1.committed = h.committed := by
  have hanswer : ∀ h : Home, (ask.answer core feed h).1.committed = h.committed := by
    intro h
    cases ask with
    | stat key | get key => rfl
    | put key content opts =>
      dsimp only [Ask.answer]
      split <;> rfl
    | delete key | list start | manifests start | draw => rfl
  unfold Ask.run
  dsimp only
  split
  · rfl
  · exact hanswer _

theorem Core.publish_adds (core : Core) (req : PublishRequest) (h : Home) :
    Adds (fun r => r = req) h (core.publish req h).1 := by
  unfold Core.publish
  dsimp only
  split
  · exact .of_eq rfl
  · split
    · exact .of_eq rfl
    · exact .of_eq rfl
    · exact .of_eq rfl
    · split
      · exact .of_eq rfl
      · rename_i site stamp created hinsert
        cases created with
        | false => exact .of_eq rfl
        | true => exact ⟨[req], rfl, by simp⟩

/-- A module commits what its `Publish` commits. -/
theorem Handling.run_adds {test : PublishRequest → Prop} (core : Core) (feed : String)
    {publishing : PublishRequest → Home → Home × Except Failure PublishResult}
    (hpublish : ∀ req h, Adds test h (publishing req h).1) (handling : Handling) (h : Home) :
    Adds test h (handling.run core feed publishing h).1 := by
  induction handling generalizing h with
  | respond response | fail error => exact .of_eq rfl
  | ask what next ih =>
    exact (Adds.of_eq (Ask.run_committed core feed what h)).trans (ih _ _)
  | publish req next ih => exact (hpublish req h).trans (ih _ _)

def Granted (e : Engine) (id : Identity) (feed : String) (r : PublishRequest) : Prop :=
  (mayPublish e id feed r.coord).allowed = true

section

variable (s : ServerRuntime)

/-- `publishDeps` commits only what the engine grants. -/
theorem depsPublish_adds (fr : FeedRuntime) (id : Identity) (req : PublishRequest) (h : Home) :
    Adds (Granted s.engine id fr.name) h (depsPublish s fr id req h).1 := by
  unfold depsPublish
  dsimp only
  split
  · exact .of_eq rfl
  · rename_i hallowed
    split
    · exact .of_eq rfl
    · refine (s.core.publish_adds { req with identity := id.text } h).imp ?_
      rintro r rfl
      simpa [Granted] using hallowed

theorem runModule_adds (fr : FeedRuntime) (hoster : Hoster) (id : Identity) (req : Request)
    (h : Home) : Adds (Granted s.engine id fr.name) h (runModule s fr hoster id req h).1 := by
  have hrun := Handling.run_adds s.core fr.name (depsPublish_adds s fr id)
    (hoster.handle fr.name req) h
  unfold runModule
  split
  · rename_i after error heq
    rwa [heq] at hrun
  · rename_i after response heq
    rw [heq] at hrun
    exact hrun.trans (.of_eq rfl)

theorem applyForwardedPublish_adds (acceptsHost : Bytes → Bool) (call : ForwardedPublish)
    (h : Home) :
    Adds (fun r => mayPublishSomething s.engine (rebuildIdentity call) call.feed = true ∧
        Granted s.engine (rebuildIdentity call) call.feed r) h
      (applyForwardedPublish s acceptsHost call h).1 := by
  unfold applyForwardedPublish
  split
  · exact .of_eq rfl
  · rename_i fr hfind
    have hname : fr.name = call.feed := by simpa using List.find?_some hfind
    split
    · exact .of_eq rfl
    · split
      · rename_i hoster hmodule hhosted
        split
        · exact .of_eq rfl
        · dsimp only
          split
          · exact .of_eq rfl
          · split
            · exact .of_eq rfl
            · rename_i hreach
              split
              · exact .of_eq rfl
              · rename_i req hreq
                refine (runModule_adds s fr hoster (rebuildIdentity call) req h).imp ?_
                exact fun r hgranted => ⟨by simpa using hreach, hname ▸ hgranted⟩
      · exact .of_eq rfl

theorem handlePublish_adds {test : PublishRequest → Prop} {acceptsHost : Bytes → Bool}
    {call : ForwardedPublish} {h : Home}
    (hadds : Adds test h (applyForwardedPublish s acceptsHost call h).1) :
    Adds test h (handlePublish s acceptsHost call h).1 := by
  unfold handlePublish
  split
  · exact .of_eq rfl
  · split <;> (rename_i heq; rwa [heq] at hadds)

end

variable {fr : FeedRuntime} {id : Identity}

/-- A forwarded write commits only what the engine grants to what is left of the identity. -/
theorem forwarded_adds (hlocal : fr.isLocal = false) (hkind : id.kind ≠ .anonymous)
    (here home : ServerRuntime) (hoster : Hoster) (acceptsHost : Bytes → Bool) (req : Request)
    (h : Home) :
    Adds (fun r => Sendable id ∧ id.stale = false ∧
        mayPublishSomething here.engine id fr.name = true ∧
        mayPublishSomething home.engine (bare id) fr.name = true ∧
        Granted home.engine (bare id) fr.name r) h
      (publishHandler (some (clientForwardPublish home acceptsHost)) here fr hoster id
        req h).1 := by
  unfold publishHandler
  dsimp only
  cases hrefusal : refusal here fr id with
  | some response => exact .of_eq rfl
  | none =>
    have hgate : id.stale = false ∧ mayPublishSomething here.engine id fr.name = true := by
      unfold refusal at hrefusal
      rw [if_neg hkind] at hrefusal
      split_ifs at hrefusal with hstale hreach
      exact ⟨by simpa using hstale, by simpa using hreach⟩
    simp only [hlocal, Bool.not_false, if_true, forwardPublish]
    by_cases hsend : Sendable id
    · rw [clientForwardPublish_of_sendable hsend]
      dsimp only
      have hadds := applyForwardedPublish_adds home acceptsHost
        (delivered fr.name (trimSlash req.path) req id) h
      rw [rebuildIdentity_delivered hkind] at hadds
      exact handlePublish_adds home (hadds.imp fun r htest => ⟨hsend, hgate.1, hgate.2, htest⟩)
    · rw [clientForwardPublish_of_not_sendable hsend]
      exact .of_eq rfl

/-! ## A module that publishes one coordinate -/

def publishOnly (coord : String) : Hoster where
  responds := false
  handle feed _ := .publish { samplePublish "d" with feed := feed, coord := coord }
    fun _ => .respond ⟨201, [], []⟩
  reindex _ objects := objects

def calmCore : Core where
  publisher := ⟨"home", .plain, false⟩
  enabled := true
  hash _ := ""
  clock _ := ⟨0, 0, 0, 0⟩
  now _ := 0
  draw _ := .ok "00000000"
  fault _ := none

/-- The feed at its home site, with the module that publishes the coordinate. -/
def FeedRuntime.atHome (fr : FeedRuntime) (coord : String) : FeedRuntime :=
  { fr with
    isLocal := true
    hosted := true
    module := some (publishOnly coord)
    onPublish := fun _ => ⟨true, ""⟩ }

def homeOf (e : Engine) (fr : FeedRuntime) (coord : String) : ServerRuntime :=
  ⟨"home", e, calmCore, [fr.atHome coord]⟩

def staged : Home where
  objects := Table.put ∅ (Storage.blobKey "d") []

def plainRequest : Request :=
  ⟨"PUT", validMethod_put, [slash, 97], [], noHeaders, []⟩

theorem calmCore_publish (feed coord identity : String) :
    let req := { samplePublish "d" with feed := feed, coord := coord, identity := identity }
    ∃ clock stamp, (calmCore.publish req staged).1 =
      calmCore.record req (writeHosted (feed, "pkg/1.tgz") (publishedRow "home" req stamp)
        { clock := clock }) stamp true staged := by
  intro req
  have hpath : validRemotePath "pkg/1.tgz" = true := by decide +kernel
  have hstaged : (staged.objects.find (Storage.blobKey "d")).isSome = true := by decide
  have hprecheck :
    precheck req (staged.objects.find (Storage.blobKey req.sha256)).isSome = none := by
    change precheck req (staged.objects.find (Storage.blobKey "d")).isSome = none
    rw [hstaged]
    simp [precheck, req, samplePublish, hpath]
  have hinsert : ∃ clock stamp,
      calmCore.publisher.insert req (calmCore.clock staged.ticks) staged.site =
        .ok (writeHosted (feed, "pkg/1.tgz") (publishedRow "home" req stamp) { clock := clock },
          stamp, true) :=
    ⟨_, _, rfl⟩
  obtain ⟨clock, stamp, hinsert⟩ := hinsert
  have hfault : calmCore.fault staged.ticks = none := rfl
  refine ⟨clock, stamp, ?_⟩
  unfold Core.publish
  rw [hprecheck, hfault, hinsert]
  rfl

theorem depsPublish_of_granted (s : ServerRuntime) (fr : FeedRuntime) (id : Identity)
    (req : PublishRequest) (hgranted : (mayPublish s.engine id fr.name req.coord).allowed = true)
    (hpolicies : ∀ artifact, (fr.onPublish artifact).allow = true) (h : Home) :
    depsPublish s fr id req h = s.core.publish { req with identity := id.text } h := by
  unfold depsPublish
  simp only [hgranted, hpolicies, Bool.not_true, Bool.false_eq_true, if_false]

theorem runModule_publishOnly (s : ServerRuntime) (fr : FeedRuntime) (coord : String)
    (id : Identity) (req : Request) (h : Home) :
    let published := depsPublish s fr id
      { samplePublish "d" with feed := fr.name, coord := coord } h
    runModule s fr (publishOnly coord) id req h = (published.1, .ok ⟨201, [], []⟩) :=
  rfl

variable {e : Engine} {coord : String}

theorem runModule_staged (hgranted : (mayPublish e id fr.name coord).allowed = true)
    (req : Request) :
    (runModule (homeOf e fr coord) (fr.atHome coord) (publishOnly coord) id req
      staged).1.committed =
      [{ samplePublish "d" with feed := fr.name, coord := coord, identity := id.text }] := by
  have hpublish : depsPublish (homeOf e fr coord) (fr.atHome coord) id
      { samplePublish "d" with feed := fr.name, coord := coord } staged =
      calmCore.publish { samplePublish "d" with
        feed := fr.name, coord := coord, identity := id.text } staged :=
    depsPublish_of_granted (homeOf e fr coord) (fr.atHome coord) id
      { samplePublish "d" with feed := fr.name, coord := coord } hgranted (fun _ => rfl) staged
  obtain ⟨clock, stamp, hrecord⟩ := calmCore_publish fr.name coord id.text
  have hran := runModule_publishOnly (homeOf e fr coord) (fr.atHome coord) coord id req staged
  rw [hran]
  exact (congrArg (fun out => out.1.committed) hpublish).trans (congrArg Home.committed hrecord)

theorem applyForwardedPublish_staged (hkind : id.kind ≠ .anonymous)
    (hreach : mayPublishSomething e (bare id) fr.name = true)
    (hgranted : (mayPublish e (bare id) fr.name coord).allowed = true) :
    (applyForwardedPublish (homeOf e fr coord) (fun _ => false)
      (delivered fr.name [97] plainRequest id) staged).1.committed =
      [{ samplePublish "d" with
          feed := fr.name, coord := coord, identity := (bare id).text }] := by
  have hfind : (homeOf e fr coord).feeds.find? (fun feed => feed.name =
      (delivered fr.name [97] plainRequest id).feed) = some (fr.atHome coord) := by
    have hname : (fr.atHome coord).name = fr.name := rfl
    simp [homeOf, delivered, hname]
  have hrequest : rebuildRequest (fun _ => false) (delivered fr.name [97] plainRequest id) =
      some plainRequest := by
    have hparse : parseTarget (fun _ => false) [slash, 97] = some ⟨[slash, 97], []⟩ := by decide
    rw [rebuildRequest_delivered, show slash :: trimSlash [97] = [slash, 97] from rfl, hparse]
    rfl
  have hbare : (bare id).kind ≠ .anonymous := hkind
  have hfeed : (delivered fr.name [97] plainRequest id).feed = fr.name := rfl
  have hengine : (homeOf e fr coord).engine = e := rfl
  have hmodule : (fr.atHome coord).module = some (publishOnly coord) := rfl
  have hhosted : (fr.atHome coord).hosted = true := rfl
  have hlocal : (fr.atHome coord).isLocal = true := rfl
  have henabled : (homeOf e fr coord).core.enabled = true := rfl
  unfold applyForwardedPublish
  rw [hfind]
  simp only [hlocal, hmodule, hhosted, henabled, rebuildIdentity_delivered hkind, hbare, hfeed,
    hengine, hreach, hrequest, Bool.not_true, Bool.false_eq_true, if_false]
  exact runModule_staged hgranted plainRequest

theorem forwarded_commits (hlocal : fr.isLocal = false) (hkind : id.kind ≠ .anonymous)
    (hsend : Sendable id) (hfresh : id.stale = false)
    (hreach : mayPublishSomething e id fr.name = true)
    (hbareReach : mayPublishSomething e (bare id) fr.name = true)
    (hbare : (mayPublish e (bare id) fr.name coord).allowed = true) :
    ¬ CommitsOnly (fun r => r.coord ≠ coord) staged
      (publishHandler (some (clientForwardPublish (homeOf e fr coord) fun _ => false))
        (homeOf e fr coord) fr (publishOnly coord) id plainRequest staged).1 := by
  have hrefusal : refusal (homeOf e fr coord) fr id = none := by
    have hengine : (homeOf e fr coord).engine = e := rfl
    simp [refusal, hkind, hfresh, hengine, hreach]
  have hpath : trimSlash plainRequest.path ≠ [] := List.cons_ne_nil 97 []
  have hcommitted := applyForwardedPublish_staged hkind hbareReach hbare
  rw [publishHandler_forwarded hrefusal hlocal hsend hpath]
  intro honly
  have hnew := honly { samplePublish "d" with
    feed := fr.name, coord := coord, identity := (bare id).text }
  change _ ∈ List.drop 0 (applyForwardedPublish (homeOf e fr coord) (fun _ => false)
    (delivered fr.name [97] plainRequest id) staged).1.committed → _ at hnew
  rw [hcommitted] at hnew
  exact hnew List.mem_cons_self rfl

/-! ## Denied here, denied there -/

/-- A forwarded write commits nothing for a coordinate that is denied at the home site. -/
def NeverWidens (e : Engine) (fr : FeedRuntime) (id : Identity) (coord : String) : Prop :=
  (mayPublish e id fr.name coord).allowed = false →
    ∀ (here home : ServerRuntime) (hoster : Hoster) (acceptsHost : Bytes → Bool) (req : Request)
      (h : Home), here.engine = e → home.engine = e →
      CommitsOnly (fun r => r.coord ≠ coord) h
        (publishHandler (some (clientForwardPublish home acceptsHost)) here fr hoster id req h).1

/--
What the engine grants to the kind, the subject and the project path alone it also
grants to the whole identity, as far as the identity can be forwarded at all.
-/
def KeepsDenial (e : Engine) (feed : String) (id : Identity) (coord : String) : Prop :=
  Sendable id → id.stale = false →
    e.mayReach (accessIdentity id) (feedPath feed "") .publish = true →
    e.mayReach (accessIdentity (bare id)) (feedPath feed "") .publish = true →
    Grants (e.rulesFor (accessIdentity (bare id))) (feedPath feed coord) .publish →
    Grants (e.rulesFor (accessIdentity id)) (feedPath feed coord) .publish

/--
A denial survives forwarding exactly when it does not rest on rules that are bound
by what stays behind.
-/
theorem forwarding_never_widens_iff (e : Engine) (fr : FeedRuntime) (id : Identity) (coord : String)
    (hlocal : fr.isLocal = false) (hkind : id.kind ≠ .anonymous) :
    NeverWidens e fr id coord ↔ KeepsDenial e fr.name id coord := by
  constructor
  · intro hnever hsend hfresh hreach hbareReach hgrants
    by_contra hdenied
    have hfull : (mayPublish e id fr.name coord).allowed = false :=
      Bool.eq_false_iff.mpr fun hallowed => hdenied (allowed_iff.mp hallowed)
    exact forwarded_commits hlocal hkind hsend hfresh hreach hbareReach (allowed_iff.mpr hgrants)
      (hnever hfull (homeOf e fr coord) (homeOf e fr coord) (publishOnly coord) (fun _ => false)
        plainRequest staged rfl rfl)
  · intro hkeeps hdenied here home hoster acceptsHost req h hhere hhome
    subst hhere
    have hadds := forwarded_adds hlocal hkind here home hoster acceptsHost req h
    refine (hadds.imp ?_).commitsOnly
    rintro r ⟨hsend, hfresh, hreach, hbareReach, hgranted⟩ rfl
    rw [hhome] at hbareReach hgranted
    have hgrants := hkeeps hsend hfresh hreach hbareReach (allowed_iff.mp hgranted)
    have hallowed : (mayPublish here.engine id fr.name r.coord).allowed = true :=
      allowed_iff.mpr hgrants
    rw [hallowed] at hdenied
    exact absurd hdenied nofun

def shutOut : Engine where
  policies := [⟨"writers", [⟨"feed/hub/*", [.publish], "writers"⟩]⟩,
    ⟨"frozen", [⟨"feed/hub/*", [.deny], "frozen"⟩]⟩]
  bindings := [⟨"", ["writers"], { authenticated := true }⟩,
    ⟨"", ["frozen"], { issuer := "https://ci.example" }⟩]

def remoteHub : FeedRuntime where
  name := "hub"
  named := hub_named
  isLocal := false
  homeSite := "home"
  hosted := true
  module := some (publishOnly "npm:pkg")
  onPublish _ := ⟨true, ""⟩

def ciJob : Identity where
  kind := .oidc
  subject := "job"
  issuer := "https://ci.example"

/-- A token has no issuer and no ref; nothing of it stays behind. -/
theorem forwarding_never_widens_token :
    NeverWidens shutOut remoteHub { kind := .token, subject := "t" } "npm:pkg" :=
  (forwarding_never_widens_iff shutOut remoteHub { kind := .token, subject := "t" } "npm:pkg" rfl
    nofun).mpr fun _ _ _ _ hgrants => hgrants

/-- The job is denied at the home site, and publishes there through another site. -/
theorem forwarded_job_publishes : ¬ NeverWidens shutOut remoteHub ciJob "npm:pkg" := by
  intro hnever
  exact forwarded_commits rfl (by decide) (by decide) rfl (by decide +kernel) (by decide +kernel)
    (by decide +kernel)
    (hnever (by decide +kernel) (homeOf shutOut remoteHub "npm:pkg")
      (homeOf shutOut remoteHub "npm:pkg") (publishOnly "npm:pkg") (fun _ => false) plainRequest
      staged rfl rfl)

end FondacoFormal.Server
