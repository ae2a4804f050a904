import FondacoFormal.Pipeline.View
import FondacoFormal.Server.Group

/-!
# What a group shows of its members

A member that the caller may not read is not asked at all.
-/

namespace FondacoFormal.Server

open Library Library.Program State Pipeline Api Auth Access

variable {server : ReadServer} {h : Hidden}

/-! ## Rules and answers of one feed -/

variable {feed : String}

theorem lookupQuarantine_alike (hfeed : ¬ h.feeds feed) (coordinate : String)
    (cached : Option QuarantineEntry) :
    Steady h Any (lookupQuarantine server feed coordinate cached) := by
  have hrow : Steady h Any (activeQuarantine server feed coordinate) := by
    apply Alike.bind operation_alike
    intro _ _
    apply Alike.reads
    intro s t view
    rw [view.quarantine feed hfeed]
    exact ⟨rfl, trivial⟩
  apply Alike.caught hrow
  · intro row _
    apply Alike.bind tick_alike
    intro n _
    apply Alike.bind (P := Any)
    · apply Alike.update
      intro s t view
      exact { view with entries := view.entries.keep (fun n => maxQuarantineEntries ≤ n) hfeed _ }
    · intro _ _
      exact .pure trivial
  · exact fun _ => .pure trivial

theorem blocked_alike (hfeed : ¬ h.feeds feed) (coordinate : String) :
    Steady h Any (blocked server feed coordinate) := by
  unfold blocked
  split
  · exact .pure trivial
  · apply Alike.bind tick_alike
    intro n _
    apply Alike.bind (P := Any)
    · apply Alike.reads
      intro s t view
      exact ⟨view.entries.2 feed coordinate hfeed, trivial⟩
    · intro cached _
      cases cached with
      | none => exact lookupQuarantine_alike hfeed coordinate none
      | some entry =>
        dsimp only
        split_ifs
        · exact .pure trivial
        · exact lookupQuarantine_alike hfeed coordinate (some entry)

structure ReadFeed.Plain (h : Hidden) (env : ReadEnv) (fr : ReadFeed) : Prop where
  feed : ¬ h.feeds fr.feed.name
  upstream : ∀ up, fr.upstream = some up → up.Plain h env

theorem ReadFeed.Plain.request {fr : ReadFeed} (hplain : fr.Plain h server.env) (intent : Intent) :
    (fr.request intent).Plain h server.env :=
  ⟨hplain.feed, hplain.upstream⟩

theorem artifactMetadata_alike (hpeers : PlainPeers h server.env) {fr : ReadFeed}
    (hplain : fr.Plain h server.env) (intent : Intent) :
    Steady h Any (artifactMetadata server fr intent) := by
  unfold artifactMetadata
  split
  · exact .pure trivial
  · split
    · exact .pure trivial
    · split
      · exact .pure trivial
      next metaIntent _ =>
        apply Alike.caught (serve_alike hpeers (hplain.request metaIntent))
        · intro result _
          dsimp only
          split <;> exact .pure trivial
        · exact fun _ => .pure trivial

theorem manifests_alike (hfeed : ¬ h.feeds feed) :
    Steady h (fun rows => ∀ row ∈ rows, ¬ h.digests row.sha256) (manifests server feed) := by
  unfold manifests
  split
  · exact .fail _
  · apply Alike.bind operation_alike
    intro _ _
    apply Alike.reads
    intro s t view
    refine ⟨by rw [view.hosted feed hfeed], ?_⟩
    intro row hrow
    obtain ⟨source, hsource, rfl⟩ := List.mem_map.mp hrow
    exact view.hostedNamed feed source hfeed hsource

theorem withContents_alike {rows : List HostedManifest}
    (hrows : ∀ row ∈ rows, ¬ h.digests row.sha256) : Steady h Any (withContents server rows) := by
  induction rows with
  | nil => exact .pure trivial
  | cons row rest ih =>
    apply Alike.bind (getBlob_alike (hrows row List.mem_cons_self)).attempt
    intro content _
    apply Alike.bind (ih fun other hother => hrows other (.tail _ hother))
    intro others _
    exact .pure trivial

variable {member : ReadFeed}

theorem answerFromMember_alike (hpeers : PlainPeers h server.env)
    (hplain : member.Plain h server.env) (intent : Intent) :
    Steady h Any (answerFromMember server member intent) := by
  unfold answerFromMember
  split
  · split
    · exact .fail _
    next search _ =>
      apply Alike.bind (P := Any)
      · apply Alike.bind (manifests_alike hplain.feed)
        intro rows hrows
        apply Alike.bind (withContents_alike hrows)
        intro contents _
        exact .lift fun _ _ => trivial
      · intro answer _
        exact .lift fun _ _ => trivial
  · exact serve_alike hpeers (hplain.request intent)

/-! ## Members -/

/-- The same member at two sites; all but the name of a hidden one may differ. -/
structure SameMember (h : Hidden) (env : ReadEnv) (a b : ReadFeed) : Prop where
  name : a.feed.name = b.feed.name
  same : ¬ h.feeds a.feed.name → a = b ∧ a.Plain h env

def HidesDenied (server : ReadServer) (id : Identity) (intent : Intent) (h : Hidden) : Prop :=
  ∀ feed, h.feeds feed ↔ (mayServe server.engine id feed intent).allowed = false

variable {members others : List ReadFeed}

section Asking

variable {id : Identity} {intent : Intent}

theorem askMember_denied
    (hdenied : (mayServe server.engine id member.feed.name intent).allowed = false) :
    askMember server member id intent = pure (.missing none) := by
  unfold askMember
  rw [hdenied]
  rfl

variable (hhides : HidesDenied server id intent h)

include hhides

variable (hpeers : PlainPeers h server.env)

include hpeers

theorem askMember_alike {a b : ReadFeed} (hsame : SameMember h server.env a b) :
    Alike (SameView h)
      (fun outcome => h.feeds a.feed.name → outcome = .missing none)
      (askMember server a id intent) (askMember server b id intent) := by
  by_cases hfeed : h.feeds a.feed.name
  · have hdenied := (hhides _).mp hfeed
    rw [askMember_denied hdenied, askMember_denied (hsame.name ▸ hdenied)]
    exact .pure fun _ => rfl
  · obtain ⟨rfl, hplain⟩ := hsame.same hfeed
    refine Alike.mono (P := Any) ?_ fun _ _ hhidden => absurd hhidden hfeed
    unfold askMember
    split
    · exact .pure trivial
    · apply Alike.bind (blocked_alike hplain.feed _)
      intro verdict _
      obtain ⟨isBlocked, reason⟩ := verdict
      dsimp only
      split_ifs
      · exact .pure trivial
      · exact .pure trivial
      · apply Alike.caught (answerFromMember_alike hpeers hplain intent)
        · intro result _
          apply Alike.bind (artifactMetadata_alike hpeers hplain intent)
          intro metadata _
          dsimp only
          split_ifs <;> exact .pure trivial
        · exact fun _ => .pure trivial

variable (hsame : List.Forall₂ (SameMember h server.env) members others)

include hsame

theorem findFirst_alike (refused : Refused) :
    Alike (SameView h) Any (findFirst server id intent members refused)
      (findFirst server id intent others refused) := by
  induction hsame generalizing refused with
  | nil => exact .pure trivial
  | @cons a _ _ _ hmember _ ih =>
    apply Alike.bind (askMember_alike hhides hpeers hmember)
    intro outcome houtcome
    cases outcome with
    | answered result shown =>
      have hvisible : ¬ h.feeds a.feed.name := fun hhidden => nomatch houtcome hhidden
      obtain ⟨rfl, _⟩ := hmember.same hvisible
      exact .pure trivial
    | blocked | missing =>
      dsimp only
      rw [hmember.name]
      exact ih _

theorem askAll_alike :
    Alike (SameView h) Any (askAll server id intent members) (askAll server id intent others) := by
  induction hsame with
  | nil => exact .pure trivial
  | cons hmember _ ih =>
    apply Alike.bind (askMember_alike hhides hpeers hmember)
    intro outcome _
    apply Alike.bind ih
    intro rest _
    rw [hmember.name]
    exact .pure trivial

end Asking

/-! ## The whole response -/

theorem tryRedirect_alike (req : ReadRequest) (fr : ReadFeed) (intent : Intent) (result : Result)
    (headers : List (String × String)) :
    Steady h Any (tryRedirect server req fr intent result headers) := by
  unfold tryRedirect
  split
  · exact .pure trivial
  · split
    · split
      · exact .pure trivial
      · apply Alike.bind tick_alike
        intro n _
        split <;> exact .pure trivial
    · exact .pure trivial

variable {group other : ReadGroup} {id : Identity} {intent : Intent}

structure SameGroup (h : Hidden) (env : ReadEnv) (group other : ReadGroup) : Prop where
  feed : group.feed = other.feed
  module : group.module = other.module
  chain : group.chain = other.chain
  members : List.Forall₂ (SameMember h env) group.members other.members

section Groups

variable {req : ReadRequest} (hpeers : PlainPeers h server.env)
  (hsame : SameGroup h server.env group other)

include hsame

section

variable (hhides : HidesDenied server id intent h)

include hpeers hhides

theorem serveFirstHit_alike :
    Alike (SameView h) Any (serveFirstHit server group id req intent)
      (serveFirstHit server other id req intent) := by
  apply Alike.bind (findFirst_alike hhides hpeers hsame.members {})
  intro found _
  cases found with
  | error refused =>
    dsimp only
    unfold answerEmptyGroup
    rw [hsame.feed]
    exact .pure trivial
  | ok hit =>
    apply Alike.bind (tryRedirect_alike req hit.member intent hit.result _)
    intro redirected _
    cases redirected <;> exact .pure trivial

theorem serveMerged_alike (merger : GroupMerger) :
    Alike (SameView h) Any (serveMerged server group merger id intent)
      (serveMerged server other merger id intent) := by
  apply Alike.bind (askAll_alike hhides hpeers hsame.members)
  intro outcomes _
  dsimp only
  unfold answerMerged answerEmptyGroup
  rw [hsame.feed]
  exact .pure trivial

end

variable (hhides : ∀ intent, group.module.parse req = .ok intent → HidesDenied server id intent h)

include hhides

theorem admitGroup_alike :
    Alike (SameView h)
      (fun admitted => ∀ intent, admitted = .ok intent → HidesDenied server id intent h)
      (admitGroup server group id req) (admitGroup server other id req) := by
  unfold admitGroup
  rw [← hsame.module, ← hsame.feed, ← hsame.chain]
  cases hparse : group.module.parse req with
  | error error => exact .pure fun _ heq => nomatch heq
  | ok intent =>
    have hdenied := hhides intent hparse
    dsimp only
    split
    · exact .pure fun _ heq => nomatch heq
    next hallowed =>
      have hgroup : ¬ h.feeds group.feed.name := by
        intro hhidden
        rw [(hdenied _).mp hhidden] at hallowed
        exact hallowed rfl
      apply Alike.bind (blocked_alike hgroup _)
      intro verdict _
      obtain ⟨isBlocked, reason⟩ := verdict
      dsimp only
      split_ifs
      · exact .pure fun _ heq => nomatch heq
      · exact .pure fun _ heq => nomatch heq
      · apply Alike.pure
        intro other heq
        cases heq
        exact hdenied

include hpeers in
theorem groupHandler_alike :
    Alike (SameView h) Any (groupHandler server group id req)
      (groupHandler server other id req) := by
  apply Alike.bind (admitGroup_alike hsame hhides)
  intro admitted hentered
  cases admitted with
  | error response => exact .pure trivial
  | ok intent =>
    have hdenied := hentered intent rfl
    dsimp only
    unfold answerGroup
    rw [← hsame.module, ← hsame.feed]
    split
    · exact .pure trivial
    · split
      · exact serveMerged_alike hpeers hsame hdenied _
      · exact serveFirstHit_alike hpeers hsame hdenied

end Groups

/-! ## Where an answer comes from -/

/-- Asked in this state, every rule of the member lets the caller have this result of it. -/
structure Cleared (server : ReadServer) (id : Identity) (intent : Intent) (member : ReadFeed)
    (s : ReadStore) (result : Result) (shown : ServedArtifact) : Prop where
  access : (mayServe server.engine id member.feed.name intent).allowed = true
  quarantine : ∃ reason, (blocked server member.feed.name intent.coord.text s).2 =
    .ok (false, reason)
  resolve : (member.chain.onResolve id intent.coord).allow = true
  obtained : (answerFromMember server member intent
    (blocked server member.feed.name intent.coord.text s).1).2 = .ok result
  described : ∃ metadata, (artifactMetadata server member intent (answerFromMember server member
      intent (blocked server member.feed.name intent.coord.text s).1).1).2 = .ok metadata ∧
    shown = servedArtifact intent result metadata
  serve : (member.chain.onServe id shown).allow = true

/-- The member is cleared in the state in which its turn comes among the members. -/
def ClearedInTurn (server : ReadServer) (id : Identity) (intent : Intent) (members : List ReadFeed)
    (s : ReadStore) (member : ReadFeed) (result : Result) (shown : ServedArtifact) : Prop :=
  ∃ before after, members = before ++ member :: after ∧
    Cleared server id intent member (askAll server id intent before s).1 result shown

variable {outcomes : List (String × MemberResult)} {members : List ReadFeed}

section Cleared

variable {id : Identity} {intent : Intent}

variable {s : ReadStore} {result : Result} {shown : ServedArtifact}

theorem offerResult_answered {obtained : Result}
    (hanswer : (offerResult server member id intent obtained s).2 = .ok (.answered result shown)) :
    obtained = result ∧ (member.chain.onServe id shown).allow = true ∧
      ∃ metadata, (artifactMetadata server member intent s).2 = .ok metadata ∧
        shown = servedArtifact intent result metadata := by
  obtain ⟨metadata, hmetadata, hanswer⟩ := bind_ok hanswer
  dsimp only at hanswer
  split at hanswer
  next hserve =>
    cases hanswer
    exact ⟨rfl, hserve, metadata, hmetadata, rfl⟩
  · cases hanswer

theorem askMember_answered
    (hanswer : (askMember server member id intent s).2 = .ok (.answered result shown)) :
    Cleared server id intent member s result shown := by
  unfold askMember at hanswer
  split at hanswer
  · cases hanswer
  next haccess =>
    obtain ⟨⟨isBlocked, reason⟩, hverdict, hanswer⟩ := bind_ok hanswer
    dsimp only at hanswer
    split at hanswer
    · cases hanswer
    next hfree =>
      split at hanswer
      · cases hanswer
      next hresolve =>
        obtain ⟨ended, hended, hanswer⟩ := bind_ok hanswer
        cases ended with
        | error error => cases hanswer
        | ok obtained =>
          obtain ⟨rfl, hserve, metadata, hmetadata, hshown⟩ := offerResult_answered hanswer
          constructor
          · simpa using haccess
          · refine ⟨reason, ?_⟩
            rw [hverdict]
            simpa using hfree
          · simpa using hresolve
          · exact Except.ok.inj hended
          · exact ⟨metadata, hmetadata, hshown⟩
          · exact hserve

theorem ClearedInTurn.later {first : ReadFeed} {outcome : MemberResult}
    (hasked : (askMember server first id intent s).2 = .ok outcome)
    (cleared : ClearedInTurn server id intent members (askMember server first id intent s).1
      member result shown) :
    ClearedInTurn server id intent (first :: members) s member result shown := by
  obtain ⟨before, after, rfl, hcleared⟩ := cleared
  refine ⟨first :: before, after, rfl, ?_⟩
  have hstate : (askAll server id intent (first :: before) s).1 =
      (askAll server id intent before (askMember server first id intent s).1).1 := by
    rw [askAll, bind_of_answer hasked, bind_apply]
    rcases askAll server id intent before (askMember server first id intent s).1
      with ⟨t, e | others⟩
    · rfl
    · rfl
  rw [hstate]
  exact hcleared

theorem findFirst_cleared {refused : Refused} {hit : Hit}
    (hfound : (findFirst server id intent members refused s).2 = .ok (.ok hit)) :
    ClearedInTurn server id intent members s hit.member hit.result hit.shown := by
  induction members generalizing refused s with
  | nil => cases hfound
  | cons first rest ih =>
    obtain ⟨outcome, hasked, hfound⟩ := bind_ok hfound
    cases outcome with
    | answered result shown =>
      cases hfound
      exact ⟨[], rest, rfl, askMember_answered hasked⟩
    | blocked | missing => exact (ih hfound).later hasked

theorem askAll_cleared (hrun : (askAll server id intent members s).2 = .ok outcomes)
    {name : String} (hmem : (name, .answered result shown) ∈ outcomes) :
    ∃ member, member.feed.name = name ∧
      ClearedInTurn server id intent members s member result shown := by
  induction members generalizing s outcomes with
  | nil =>
    cases hrun
    cases hmem
  | cons member rest ih =>
    obtain ⟨outcome, hasked, hrun⟩ := bind_ok hrun
    obtain ⟨others, hothers, hrun⟩ := bind_ok hrun
    cases hrun
    rcases List.mem_cons.mp hmem with hfirst | hlater
    · cases hfirst
      exact ⟨member, rfl, [], rest, rfl, askMember_answered hasked⟩
    · obtain ⟨other, hname, hcleared⟩ := ih hothers hlater
      exact ⟨other, hname, hcleared.later hasked⟩

theorem mem_foldl_addPart {collected : List GroupPart × Refused} {part : GroupPart}
    (hpart : part ∈ (outcomes.foldl addPart collected).1) :
    part ∈ collected.1 ∨
      ∃ name result shown, (name, .answered result shown) ∈ outcomes ∧
        part = ⟨name, result.body⟩ := by
  induction outcomes generalizing collected with
  | nil => exact .inl hpart
  | cons asked rest ih =>
    obtain ⟨name, outcome⟩ := asked
    have hstep : part ∈ (addPart collected (name, outcome)).1 → part ∈ collected.1 ∨
        ∃ result shown, outcome = .answered result shown ∧ part = ⟨name, result.body⟩ := by
      intro hadded
      cases outcome with
      | blocked reason | missing error => exact .inl hadded
      | answered result shown =>
        simp only [addPart] at hadded
        split_ifs at hadded
        · exact .inl hadded
        · rcases List.mem_append.mp hadded with hbefore | hnew
          · exact .inl hbefore
          · exact .inr ⟨result, shown, rfl, List.mem_singleton.mp hnew⟩
    rcases ih hpart with hadded | ⟨other, result, shown, hmem, heq⟩
    · rcases hstep hadded with hbefore | ⟨result, shown, rfl, heq⟩
      · exact .inl hbefore
      · exact .inr ⟨name, result, shown, List.mem_cons_self, heq⟩
    · exact .inr ⟨other, result, shown, .tail _ hmem, heq⟩

end Cleared

/-! ## Unreadable members -/

def pkgIntent : Intent where
  kind := .artifact
  coord := ⟨"raw", "pkg", ""⟩
  remotePath := "pkg"

def pkgModule : FormatModule where
  name := "raw"
  parse _ := .ok pkgIntent

def pkgFeed (name : String) : ReadFeed where
  feed := { name := name, format := "raw" }
  module := pkgModule
  chain := .empty

def twoFeeds : ReadGroup where
  feed := { name := "all", format := "raw" }
  module := pkgModule
  chain := .empty
  members := [pkgFeed "closed", pkgFeed "open"]

def readersEngine : Engine where
  policies := [⟨"readers",
    [⟨"feed/all/*", [.read], "readers"⟩, ⟨"feed/open/*", [.read], "readers"⟩]⟩]
  bindings := [⟨"", ["readers"], {}⟩]

/-- A site where every operation succeeds, without a database and without peers. -/
def calmEnv : ReadEnv where
  site := "here"
  digest _ _ := "d"
  now _ := 0
  fault _ := none

def readersServer : ReadServer where
  env := calmEnv
  engine := readersEngine
  database := false
  quarantineTTL := 30

def stranger : Identity where
  kind := .anonymous
  subject := ""

def manifestOf (sha : String) : Manifest where
  sha256 := sha
  size := 1
  checksums := []
  ingestedAt := 0
  origin := "publish"
  site := "here"
  publisher := ""
  metadata := {}

def storeArtifact (feed path sha : String) (content : Bytes) (s : ReadStore) : ReadStore :=
  { s with
    manifests := s.manifests.put (feed, path) (.ok (manifestOf sha))
    blobs := s.blobs.put sha content }

def awaitingBlob : ReadStore where
  manifests := (∅ : Table PathKey (Except Failure Manifest)).put ("open", "pkg")
    (.ok (manifestOf "d"))

def kept : Hidden where
  feeds feed := (mayServe readersEngine stranger feed pkgIntent).allowed = false
  digests sha := sha = "d"

end FondacoFormal.Server
