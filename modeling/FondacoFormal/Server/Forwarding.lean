import FondacoFormal.Server.Publish

/-!
# What arrives at the home site

`forwardPublish` and `Client.ForwardPublish` take a request apart;
`ApplyForwardedPublish` puts together what it was sent.  One lemma for each part
says what comes out: the identity, the request, and the answer.
-/

namespace FondacoFormal.Server

open Pipeline Auth

/-! ## What is left of an identity -/

def trimEnd (s : List Char) : List Char :=
  (s.reverse.dropWhile blank).reverse

def bare (id : Identity) : Identity where
  kind := id.kind
  subject := String.ofList (trimEnd id.subject.toList)
  projectPath := String.ofList (trimBlanks id.projectPath.toList)

def Sendable (id : Identity) : Prop :=
  id.subject.toList.any controlChar = false ∧ id.projectPath.toList.any controlChar = false
  deriving Decidable

theorem dropWhile_append_cons {α : Type} {p : α → Bool} {b : α} (hb : p b = false)
    (front back : List α) :
    (front ++ b :: back).dropWhile p = front.dropWhile p ++ b :: back := by
  induction front with
  | nil => simp [hb]
  | cons a rest ih =>
    rw [List.cons_append, List.dropWhile_cons, List.dropWhile_cons]
    split
    · exact ih
    · rfl

theorem trimEnd_append_cons {c : Char} (hc : blank c = false) (front back : List Char) :
    trimEnd (front ++ c :: back) = front ++ c :: trimEnd back := by
  unfold trimEnd
  rw [List.reverse_append, List.reverse_cons, List.append_assoc, List.singleton_append,
    dropWhile_append_cons hc]
  simp

variable (id : Identity)

theorem text_toList : id.text.toList = id.kind.text.toList ++ ':' :: id.subject.toList := by
  simp [Identity.text]

theorem headerValue_text :
    headerValue id.text = if id.subject.toList.any controlChar then none
      else some (id.kind.text ++ ":" ++ (bare id).subject) := by
  have hstart : id.text.toList.dropWhile blank = id.text.toList := by
    rw [text_toList]
    cases id.kind <;> rfl
  have hcontrol : id.text.toList.any controlChar = id.subject.toList.any controlChar := by
    rw [text_toList, List.any_append, List.any_cons]
    cases id.kind <;> rfl
  have htrim : trimBlanks id.text.toList = trimEnd id.text.toList := by
    unfold trimBlanks trimEnd
    rw [hstart]
  unfold headerValue
  rw [hcontrol, htrim, text_toList, trimEnd_append_cons (by decide)]
  congr 2
  apply String.toList_inj.mp
  simp [bare]

theorem parseIdentity_text {kind : IdentityKind} (hkind : kind ≠ .anonymous) (subject : String) :
    parseIdentity (kind.text ++ ":" ++ subject) = { kind := kind, subject := subject } := by
  have hcut : cutColon (kind.text ++ ":" ++ subject) = some (kind.text, subject) := by
    exact cutColon_append (by cases kind <;> decide) subject
  unfold parseIdentity
  rw [hcut]
  cases kind with
  | anonymous => exact absurd rfl hkind
  | token | oidc => rfl

/-! ## What is delivered -/

variable {id : Identity} {fr : FeedRuntime}

theorem publishHandler_forwards {forward : Option ForwardFunc} {s : ServerRuntime}
    (hrefusal : refusal s fr id = none) (hlocal : fr.isLocal = false) (hoster : Hoster)
    (req : Request) (h : Home) :
    publishHandler forward s fr hoster id req h =
      ((forwardPublish forward s fr id req h).1,
        withChallenge hoster.challenge (forwardPublish forward s fr id req h).2) := by
  unfold publishHandler
  rw [hrefusal]
  simp only [hlocal, Bool.not_false, if_true]

/-- The header carries the project path of a sendable identity up to blanks at its ends. -/
theorem headerValue_projectPath :
    headerValue id.projectPath = if id.projectPath.toList.any controlChar then none
      else some (bare id).projectPath :=
  rfl

def delivered (feed : String) (path : Bytes) (req : Request) (id : Identity) :
    ForwardedPublish where
  feed := feed
  path := path
  method := req.method
  headers := req.headers
  body := req.body
  identity := id.kind.text ++ ":" ++ (bare id).subject
  projectPath := (bare id).projectPath

theorem rebuildIdentity_delivered (hkind : id.kind ≠ .anonymous) (feed : String) (path : Bytes)
    (req : Request) : rebuildIdentity (delivered feed path req id) = bare id := by
  unfold rebuildIdentity delivered
  dsimp only
  rw [parseIdentity_text hkind]
  rfl

/-- The request the home site rebuilds: only its path and its query are parsed anew. -/
theorem rebuildRequest_delivered (acceptsHost : Bytes → Bool) (feed : String) (path : Bytes)
    (req : Request) (id : Identity) :
    rebuildRequest acceptsHost (delivered feed path req id) =
      (parseTarget acceptsHost (slash :: trimSlash path)).map fun target =>
        { req with path := target.path, query := target.query } := by
  have hmethod : req.method ≠ "" := by
    have hvalid := req.valid
    unfold validMethod at hvalid
    simp only [Bool.and_eq_true, decide_eq_true_eq] at hvalid
    exact hvalid.1
  unfold rebuildRequest delivered
  simp only [if_neg hmethod, dif_pos req.valid]

theorem handlePublish_delivered {feed : String} (hfeed : feed ≠ "") {path : Bytes}
    (hpath : path ≠ []) (s : ServerRuntime) (acceptsHost : Bytes → Bool) (req : Request)
    (id : Identity) (h : Home) :
    handlePublish s acceptsHost (delivered feed path req id) h =
      ((applyForwardedPublish s acceptsHost (delivered feed path req id) h).1,
        ((applyForwardedPublish s acceptsHost (delivered feed path req id) h).2.getD
          (plain 500 "internal error"))) := by
  have hidentity : (delivered feed path req id).identity ≠ "" := by
    intro hempty
    have hlist : (id.kind.text ++ ":" ++ (bare id).subject).toList = [] := by
      rw [show id.kind.text ++ ":" ++ (bare id).subject = "" from hempty]
      rfl
    simp at hlist
  unfold handlePublish
  rw [if_neg (by simp only [not_or]; exact ⟨hfeed, hpath, hidentity⟩)]
  cases hresult : applyForwardedPublish s acceptsHost (delivered feed path req id) h with
  | mk after response => cases response <;> rfl

theorem clientForwardPublish_of_sendable (hsend : Sendable id) (home : ServerRuntime)
    (acceptsHost : Bytes → Bool) (feed : String) (path : Bytes) (req : Request) (h : Home) :
    let handled := handlePublish home acceptsHost (delivered feed path req id) h
    clientForwardPublish home acceptsHost feed path req id.text id.projectPath h =
      (handled.1, .ok { handled.2 with body := handled.2.body.take maxForwardedBody }) := by
  unfold clientForwardPublish
  rw [headerValue_text, headerValue_projectPath, hsend.1, hsend.2]
  rfl

def relayed (homeSite : String) (answer : Response) : Response where
  status := answer.status
  headers := (copyForwardedHeaders answer.headers).filter (fun header =>
    header.1 ≠ "X-Registry-Site") ++ [("X-Registry-Site", homeSite)]
  body := answer.body.take maxForwardedBody

theorem publishHandler_forwarded {here : ServerRuntime} (hrefusal : refusal here fr id = none)
    (hlocal : fr.isLocal = false) (hsend : Sendable id) {req : Request}
    (hpath : trimSlash req.path ≠ []) (home : ServerRuntime) (acceptsHost : Bytes → Bool)
    (hoster : Hoster) (h : Home) :
    let applied := applyForwardedPublish home acceptsHost
      (delivered fr.name (trimSlash req.path) req id) h
    publishHandler (some (clientForwardPublish home acceptsHost)) here fr hoster id req h =
      (applied.1, withChallenge hoster.challenge
        (relayed fr.homeSite (applied.2.getD (plain 500 "internal error")))) := by
  rw [publishHandler_forwards hrefusal hlocal]
  simp only [forwardPublish, clientForwardPublish_of_sendable hsend,
    handlePublish_delivered fr.named hpath]
  rfl

theorem clientForwardPublish_of_not_sendable (hsend : ¬ Sendable id) (home : ServerRuntime)
    (acceptsHost : Bytes → Bool) (feed : String) (path : Bytes) (req : Request) (h : Home) :
    clientForwardPublish home acceptsHost feed path req id.text id.projectPath h =
      (h, .error "net/http: invalid header field value") := by
  unfold clientForwardPublish
  rw [headerValue_text, headerValue_projectPath]
  unfold Sendable at hsend
  cases hsubject : id.subject.toList.any controlChar with
  | true => rfl
  | false =>
    cases hproject : id.projectPath.toList.any controlChar with
    | true => rfl
    | false => exact absurd ⟨hsubject, hproject⟩ hsend

end FondacoFormal.Server
