import FondacoFormal.Library.Text

/-!
# Identities

Who a request is from, and the text an identity crosses a site boundary as.
-/

namespace FondacoFormal.Auth

/-- `IdentityKind`. -/
inductive IdentityKind where
  | anonymous
  | token
  | oidc
  deriving DecidableEq, Repr

def IdentityKind.text : IdentityKind → String
  | anonymous => "anonymous"
  | token => "token"
  | oidc => "oidc"

/-- `api.Identity`. -/
structure Identity where
  kind : IdentityKind
  subject : String
  issuer : String := ""
  projectPath : String := ""
  ref : String := ""
  /-- Served from the cache while the token backend is unreachable. -/
  stale : Bool := false
  deriving DecidableEq, Repr

namespace Identity

/-- `Identity.String`. -/
def text (id : Identity) : String :=
  id.kind.text ++ ":" ++ id.subject

end Identity

/-- `strings.Cut` at a colon. -/
def cutColon (s : String) : Option (String × String) :=
  let kind := s.toList.takeWhile fun c => c ≠ ':'
  match s.toList.drop kind.length with
  | [] => none
  | _ :: subject => some (String.ofList kind, String.ofList subject)

theorem cutColon_append {kind : String} (hkind : ':' ∉ kind.toList) (rest : String) :
    cutColon (kind ++ ":" ++ rest) = some (kind, rest) := by
  have hlist : (kind ++ ":" ++ rest).toList = kind.toList ++ ':' :: rest.toList := by simp
  have htake : (kind.toList ++ ':' :: rest.toList).takeWhile (fun c => c ≠ ':') = kind.toList := by
    rw [List.takeWhile_append_of_pos]
    · simp
    · intro c hc
      rw [decide_eq_true_eq]
      rintro rfl
      exact hkind hc
  unfold cutColon
  dsimp only
  rw [hlist, htake, List.drop_left]
  simp

theorem cutColon_eq_some {s kind rest : String} (hcut : cutColon s = some (kind, rest)) :
    s = kind ++ ":" ++ rest := by
  unfold cutColon at hcut
  dsimp only at hcut
  split at hcut
  · cases hcut
  next hrest =>
    cases hcut
    apply String.toList_inj.mp
    refine (Library.Text.eq_of_drop_takeWhile hrest).trans ?_
    simp

/-- `ParseIdentity`. -/
def parseIdentity (s : String) : Identity :=
  match cutColon s with
  | none => { kind := .anonymous, subject := s }
  | some (kind, subject) =>
    if kind = "token" then { kind := .token, subject := subject }
    else if kind = "oidc" then { kind := .oidc, subject := subject }
    else { kind := .anonymous, subject := subject }

end FondacoFormal.Auth
