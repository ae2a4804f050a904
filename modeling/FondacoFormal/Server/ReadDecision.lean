import FondacoFormal.Server.Read

/-!
# What decides a read

When nothing fails and the pipeline has the artifact, a client gets it exactly when the site's
own rules pass: access, quarantine, and the policies on resolving and on serving.
-/

namespace FondacoFormal.Server

open Library.Program State Pipeline Api Auth

/-! ## The rules -/

def quarantinedAt (s : ReadStore) (feed coordinate : String) : Prop :=
  (activeRow (quarantineOf s.tables feed) coordinate).isSome = true

/-- The site has the coordinate in quarantine: by a verdict that it holds, or by its rows. -/
def OwnBlock (server : ReadServer) (feed coordinate : String) (s : ReadStore) : Prop :=
  server.database = true ∧
    match s.entries.find (feed, coordinate) with
    | none => quarantinedAt s feed coordinate
    | some entry =>
      if server.env.now s.ticks < entry.expires then entry.blocked = true
      else quarantinedAt s feed coordinate

variable (server : ReadServer) (fr : ReadFeed) (id : Identity) (intent : Intent) (s : ReadStore)

/-- What the site describes the artifact with once it has obtained it. -/
def describedBy : Except Failure StringMap :=
  (artifactMetadata server fr intent (serve server.env (fr.request intent)
    (blocked server fr.feed.name intent.coord.text s).1).1).2

/-- One of the site's own rules refuses what it obtained. -/
inductive OwnRefusal (result : Result) : Prop where
  | access (hdenied : (mayServe server.engine id fr.feed.name intent).allowed = false)
  | quarantine (hblocked : OwnBlock server fr.feed.name intent.coord.text s)
  | resolve (hrefused : (fr.chain.onResolve id intent.coord).allow = false)
  | serve {metadata : StringMap} (hdescribed : describedBy server fr intent s = .ok metadata)
      (hrefused : (fr.chain.onServe id (servedArtifact intent result metadata)).allow = false)

/-- The response is a refusal by one of the rules, or they all pass and it is the result, or
sends the client to where the result lies. -/
def Decided (result : Result) (response : Response) : Prop :=
  400 ≤ response.status ∧ OwnRefusal server fr id intent s result ∨
    ¬ OwnRefusal server fr id intent s result ∧
      (response.status = 200 ∧ response.body = result.body ∨
        response.status = 302 ∧ fr.redirect = true)

/-! ## The checks -/

structure SameObjects (t s : ReadStore) : Prop where
  manifests : t.manifests = s.manifests
  missing : t.missing = s.missing
  blobs : t.blobs = s.blobs

variable {server fr id intent s}

theorem blocked_calm (hcalm : ∀ n, server.env.fault n = none) (feed coordinate : String)
    (s : ReadStore) :
    ∃ t isBlocked reason, blocked server feed coordinate s = (t, .ok (isBlocked, reason)) ∧
      SameObjects t s ∧ (isBlocked = true ↔ OwnBlock server feed coordinate s) := by
  cases hdatabase : server.database with
  | false =>
    refine ⟨s, false, "", ?_, ⟨rfl, rfl, rfl⟩, by simp [OwnBlock, hdatabase]⟩
    simp [blocked, hdatabase, pure_apply]
  | true =>
    have hlookup (cached : Option QuarantineEntry) :
        ∃ t isBlocked reason, lookupQuarantine server feed coordinate cached
            { s with ticks := s.ticks + 1 } = (t, .ok (isBlocked, reason)) ∧
          SameObjects t s ∧ (isBlocked = true ↔ quarantinedAt s feed coordinate) := by
      have hactive : activeQuarantine server feed coordinate { s with ticks := s.ticks + 1 } =
          ({ s with ticks := s.ticks + 2 },
            .ok (activeRow (quarantineOf s.tables feed) coordinate)) := by
        unfold activeQuarantine
        rw [bind_of_ok (operation_run (hcalm _))]
        rfl
      unfold lookupQuarantine quarantinedAt
      rw [bind_of_ok (attempt_run hactive)]
      cases activeRow (quarantineOf s.tables feed) coordinate with
      | none => exact ⟨_, false, "", rfl, ⟨rfl, rfl, rfl⟩, by simp⟩
      | some row => exact ⟨_, true, _, rfl, ⟨rfl, rfl, rfl⟩, by simp⟩
    unfold blocked OwnBlock
    simp only [hdatabase, Bool.not_true, Bool.false_eq_true, if_false, true_and, bind_tick]
    rw [bind_reads]
    cases s.entries.find (feed, coordinate) with
    | none => exact hlookup none
    | some entry =>
      dsimp only
      split_ifs
      · exact ⟨_, entry.blocked, entry.reason, rfl, ⟨rfl, rfl, rfl⟩, Iff.rfl⟩
      · exact hlookup (some entry)

variable (server fr intent) in
/-- A failure is no metadata, so the site always describes the artifact. -/
theorem artifactMetadata_answers : Answers (fun _ => True) (artifactMetadata server fr intent) := by
  unfold artifactMetadata
  split
  · exact .pure trivial
  · split
    · exact .pure trivial
    · split
      · exact .pure trivial
      · refine .bind (.attempt _) fun ended _ => ?_
        split
        · exact .pure trivial
        · split <;> exact .pure trivial

variable (server fr intent) in
theorem tryRedirect_answers (req : ReadRequest) (result : Result) :
    Answers (fun redirected => ∀ response, redirected = some response →
      response.status = 302 ∧ fr.redirect = true) (tryRedirect server req fr intent result []) := by
  unfold tryRedirect
  split
  · exact .pure nofun
  next hredirect =>
    split
    · split
      · exact .pure nofun
      · refine .bind (P := fun _ => True) (fun s => ⟨s.ticks, rfl, trivial⟩) fun n _ => ?_
        split
        · exact .pure nofun
        · refine .pure fun _ heq => Option.some.inj heq ▸ ⟨rfl, ?_⟩
          cases hopen : fr.redirect with
          | true => rfl
          | false => exact absurd (by simp [hopen]) hredirect
    · exact .pure nofun

theorem writeError_status (site : String) (sentinel : Option Sentinel) (detail : String) :
    400 ≤ (writeError site sentinel detail).status := by
  have herror : 400 ≤ (errorStatus sentinel).1 := by
    cases sentinel with
    | none => decide
    | some sentinel => cases sentinel <;> decide
  exact herror

theorem conflictHeader_status (coordinate reason : String) (response : Response) :
    (conflictHeader coordinate reason response).status = response.status := by
  unfold conflictHeader
  split <;> rfl

/-! ## The response -/

variable {req : ReadRequest} {result : Result}

/-- The pipeline has the artifact, and the rules before it have passed. -/
theorem answerFeed_decided (req : ReadRequest) {t : ReadStore} {reason : String}
    (hblocked : blocked server fr.feed.name intent.coord.text s = (t, .ok (false, reason)))
    (hserved : (serve server.env (fr.request intent) t).2 = .ok result)
    (haccess : (mayServe server.engine id fr.feed.name intent).allowed = true)
    (hfree : ¬ OwnBlock server fr.feed.name intent.coord.text s)
    (hresolve : (fr.chain.onResolve id intent.coord).allow = true) :
    ∃ response, (answerFeed server fr id req intent t).2 = .ok response ∧
      Decided server fr id intent s result response := by
  obtain ⟨metadata, hmetadata, -⟩ := artifactMetadata_answers server fr intent
    (serve server.env (fr.request intent) t).1
  have hdescribed : describedBy server fr intent s = .ok metadata := by
    rw [describedBy, hblocked, hmetadata]
  unfold answerFeed
  rw [bind_of_attempt hserved]
  dsimp only
  rw [bind_of_answer hmetadata]
  cases hserve : (fr.chain.onServe id (servedArtifact intent result metadata)).allow with
  | false => exact ⟨_, rfl, .inl ⟨writeError_status _ _ _, .serve hdescribed hserve⟩⟩
  | true =>
    have hpassed : ¬ OwnRefusal server fr id intent s result := by
      rintro (hdenied | hblock | hrefused | ⟨hother, hrefused⟩)
      · simp [haccess] at hdenied
      · exact hfree hblock
      · simp [hresolve] at hrefused
      · cases hdescribed.symm.trans hother
        simp [hserve] at hrefused
    obtain ⟨redirected, hredirected, hstatus⟩ := tryRedirect_answers server fr intent req result
      (artifactMetadata server fr intent (serve server.env (fr.request intent) t).1).1
    rw [if_neg (by simp), bind_of_answer hredirected]
    cases redirected with
    | none => exact ⟨_, rfl, .inr ⟨hpassed, .inl ⟨rfl, rfl⟩⟩⟩
    | some response => exact ⟨response, rfl, .inr ⟨hpassed, .inr (hstatus response rfl)⟩⟩

/-- The checks of the handler, in their order. -/
theorem feedHandler_decided (hcalm : ∀ n, server.env.fault n = none)
    (hparsed : fr.module.parse req = .ok intent) (hkind : intent.kind = .artifact)
    (hserved : ∀ t, SameObjects t s → (serve server.env (fr.request intent) t).2 = .ok result)
    (id : Identity) :
    ∃ response, (feedHandler server fr id req s).2 = .ok response ∧
      Decided server fr id intent s result response := by
  obtain ⟨t, isBlocked, reason, hblocked, hsame, hown⟩ :=
    blocked_calm hcalm fr.feed.name intent.coord.text s
  have hanswer : answerIntent server fr id req intent = answerFeed server fr id req intent := by
    unfold answerIntent
    rw [hkind]
    rfl
  unfold feedHandler
  rw [hparsed]
  dsimp only
  cases haccess : (mayServe server.engine id fr.feed.name intent).allowed with
  | false =>
    refine ⟨_, rfl, .inl ⟨?_, .access haccess⟩⟩
    rw [withChallenge_status]
    exact writeError_status _ _ _
  | true =>
    rw [if_neg (by simp), bind_of_ok hblocked]
    cases isBlocked with
    | true =>
      refine ⟨_, rfl, .inl ⟨?_, .quarantine (hown.1 rfl)⟩⟩
      rw [conflictHeader_status]
      exact writeError_status _ _ _
    | false =>
      dsimp only
      rw [if_neg Bool.false_ne_true]
      cases hresolve : (fr.chain.onResolve id intent.coord).allow with
      | false => exact ⟨_, rfl, .inl ⟨writeError_status _ _ _, .resolve hresolve⟩⟩
      | true =>
        obtain ⟨response, hfeed, hdecided⟩ := answerFeed_decided req hblocked
          (hserved t hsame) haccess (fun hblock => Bool.false_ne_true (hown.2 hblock)) hresolve
        rw [if_neg (by simp), hanswer, bind_of_answer hfeed]
        refine ⟨_, rfl, ?_⟩
        unfold Decided
        rw [withChallenge_status, withChallenge_body]
        exact hdecided

end FondacoFormal.Server
