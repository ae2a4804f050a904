import FondacoFormal.Auth.Identity
import FondacoFormal.Library.Glob

/-!
# Publisher patterns

`Publishers` reads a feed's patterns with `path.Match`, against every text an
identity can be matched by.
-/

namespace FondacoFormal.Auth

open Library

/-- `NewPublishers`: the first pattern that is empty or malformed, if any. -/
def publishersError : Nat → List String → Option String
  | _, [] => none
  | i, raw :: rest =>
    let at_ := "publishers[" ++ toString i ++ "]"
    if raw = "" then some (at_ ++ " must not be empty")
    else if (Glob.pathMatch raw "probe").isNone then
      some (at_ ++ " " ++ raw.quote ++ ": syntax error in pattern")
    else publishersError (i + 1) rest

/-- `identitySubjects`. -/
def identitySubjects (id : Identity) : List String :=
  [id.kind.text ++ ":" ++ id.subject] ++
    (if id.projectPath ≠ "" then ["project:" ++ id.projectPath] else []) ++
    (if id.ref ≠ "" ∧ id.projectPath ≠ "" then
      ["project:" ++ id.projectPath ++ "@" ++ id.ref] else [])

/-- `Publishers.Allowed`. -/
def publishersAllowed (patterns : List String) (id : Identity) : Bool :=
  if patterns = [] ∨ id.kind = .anonymous then false
  else
    (identitySubjects id).any fun subject =>
      patterns.any fun pattern => pattern = "*" ∨ Glob.Matches pattern subject

theorem publishersAllowed_iff (patterns : List String) (id : Identity) :
    publishersAllowed patterns id = true ↔ id.kind ≠ .anonymous ∧
      ∃ subject ∈ identitySubjects id, ∃ pattern ∈ patterns,
        pattern = "*" ∨ Glob.Matches pattern subject := by
  unfold publishersAllowed
  split
  · rename_i hneither
    simp only [Bool.false_eq_true, false_iff, not_and]
    rintro hkind ⟨subject, -, pattern, hpattern, -⟩
    rcases hneither with rfl | hanonymous
    · cases hpattern
    · exact hkind hanonymous
  · rename_i hboth
    simp only [not_or] at hboth
    simp [List.any_eq_true, hboth.2]

theorem mem_identitySubjects {id : Identity} {subject : String}
    (hsubject : subject ∈ identitySubjects id) :
    subject = id.kind.text ++ ":" ++ id.subject ∨
      ∃ project, project ≠ "" ∧ subject = "project:" ++ project := by
  unfold identitySubjects at hsubject
  simp only [List.mem_append, List.mem_singleton] at hsubject
  rcases hsubject with (hown | hproject) | href
  · exact .inl hown
  · split at hproject
    · rename_i hne
      exact .inr ⟨id.projectPath, hne, List.mem_singleton.mp hproject⟩
    · cases hproject
  · split at href
    · rename_i hne
      refine .inr ⟨id.projectPath ++ "@" ++ id.ref, ?_, ?_⟩
      · intro hempty
        have hlist := congrArg String.toList hempty
        simp at hlist
      · rw [List.mem_singleton.mp href]
        simp [String.append_assoc]
    · cases href

theorem own_mem_identitySubjects (id : Identity) :
    id.kind.text ++ ":" ++ id.subject ∈ identitySubjects id := by
  simp [identitySubjects]

theorem project_mem_identitySubjects {id : Identity} (hproject : id.projectPath ≠ "") :
    "project:" ++ id.projectPath ∈ identitySubjects id := by
  simp [identitySubjects, hproject]

end FondacoFormal.Auth
