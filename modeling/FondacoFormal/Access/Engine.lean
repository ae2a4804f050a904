import FondacoFormal.Access.Path

/-!
# The access engine

Named policies of path rules, bindings that attach policies to identities, and
`Explain`: the most specific matching rules decide, and among them a deny wins.
-/

namespace FondacoFormal.Access

open Library

/-! ## Policies and bindings -/

/-- `Capability`. -/
inductive Capability where
  | read
  | list
  | publish
  | create
  | update
  | delete
  | deny
  deriving DecidableEq, Repr

def Capability.text : Capability → String
  | read => "read"
  | list => "list"
  | publish => "publish"
  | create => "create"
  | update => "update"
  | delete => "delete"
  | deny => "deny"

/-- `Rule`. -/
structure Rule where
  path : String
  capabilities : List Capability
  policy : String := ""
  deriving DecidableEq, Repr

/-- `Policy`. -/
structure Policy where
  name : String
  rules : List Rule
  deriving DecidableEq, Repr

/-- `Match`; an empty field is no condition. -/
structure Match where
  kind : String := ""
  issuer : String := ""
  subject : String := ""
  projectPath : String := ""
  ref : String := ""
  authenticated : Bool := false
  deriving DecidableEq, Repr

/-- `Binding`. -/
structure Binding where
  name : String := ""
  policies : List String
  condition : Match
  deriving DecidableEq, Repr

/-- `access.Identity`. -/
structure AccessIdentity where
  kind : String
  subject : String
  issuer : String
  projectPath : String
  ref : String
  deriving DecidableEq, Repr

/-- `IsAnonymous`. -/
def AccessIdentity.isAnonymous (id : AccessIdentity) : Bool :=
  id.kind = "anonymous" || id.kind = ""

/-- `Identity.String`. -/
def AccessIdentity.text (id : AccessIdentity) : String :=
  id.kind ++ ":" ++ id.subject

/-- `glob`. -/
def glob (pattern value : String) : Bool :=
  match cutStar pattern.toList with
  | (stem, true) => stem.isPrefixOf value.toList
  | (_, false) => pattern = value

def meets (pattern value : String) : Bool :=
  pattern = "" || glob pattern value

/-- `matches`. -/
def Match.selects (m : Match) (id : AccessIdentity) : Bool :=
  !(m.authenticated && id.isAnonymous) && meets m.kind id.kind && meets m.issuer id.issuer &&
    meets m.subject id.subject && meets m.projectPath id.projectPath && meets m.ref id.ref

/-! ## The engine -/

/-- `Engine`; the policies are found by name. -/
structure Engine where
  policies : List Policy
  bindings : List Binding
  deriving DecidableEq, Repr

/-- `e.policies[name].Rules`. -/
def Engine.rulesOf (e : Engine) (name : String) : List Rule :=
  match e.policies.find? fun p => p.name = name with
  | some p => p.rules
  | none => []

/-- `boundVia`: the policies bound to an identity, and the names of the bindings. -/
def Engine.boundVia (e : Engine) (id : AccessIdentity) : List String × List String :=
  let selected := e.bindings.filter fun b => b.condition.selects id
  ((selected.flatMap Binding.policies).foldl
      (fun seen name => if seen.contains name then seen else seen ++ [name]) [],
    (selected.map Binding.name).filter fun name => name ≠ "")

/-- `PoliciesFor`. -/
def Engine.policiesFor (e : Engine) (id : AccessIdentity) : List String :=
  (e.boundVia id).1

/-- `Decision`. -/
structure Decision where
  allowed : Bool := false
  policies : List String
  bindings : List String
  rule : String := ""
  policy : String := ""
  capabilities : List Capability := []
  reason : String := ""
  deriving DecidableEq, Repr

/-- The inner loop of `Explain`: the best rules so far with their score. -/
def considerRule (path : String) (best : List Rule × Option Specificity) (rule : Rule) :
    List Rule × Option Specificity :=
  match matchPath rule.path path with
  | none => best
  | some score =>
    match best.2 with
    | none => ([rule], some score)
    | some top =>
      if score.beats top then ([rule], some score)
      else if score = top then (best.1 ++ [rule], some top)
      else best

def bestRules (path : String) (rules : List Rule) : List Rule :=
  (rules.foldl (considerRule path) ([], none)).1

def effective (rules : List Rule) : List Capability :=
  (rules.flatMap Rule.capabilities).foldl
    (fun seen c => if seen.contains c then seen else seen ++ [c]) []

/-- `Capabilities.String`. -/
def capabilitiesText (capabilities : List Capability) : String :=
  ", ".intercalate ((capabilities.map Capability.text).mergeSort fun a b => a ≤ b)

def Engine.rulesFor (e : Engine) (id : AccessIdentity) : List Rule :=
  (e.policiesFor id).flatMap e.rulesOf

/-- `Explain`. -/
def Engine.explain (e : Engine) (id : AccessIdentity) (path : String) (want : Capability) :
    Decision :=
  let (names, via) := e.boundVia id
  let decision : Decision := { policies := names, bindings := via }
  match bestRules path (e.rulesFor id) with
  | [] =>
    { decision with
      reason := if names = [] then "no policy is bound to " ++ id.text
        else "no policy grants anything on " ++ path }
  | first :: others =>
    let best := first :: others
    let capabilities := effective best
    let decision :=
      { decision with capabilities := capabilities, rule := first.path, policy := first.policy }
    if capabilities.contains .deny then
      let decider := (best.find? fun r => r.capabilities.contains .deny).getD first
      { decision with
        rule := decider.path
        policy := decider.policy
        reason := "policy " ++ decider.policy ++ " denies " ++ decider.path }
    else if capabilities.contains want then
      let decider := (best.find? fun r => r.capabilities.contains want).getD first
      { decision with
        allowed := true
        rule := decider.path
        policy := decider.policy
        reason := "policy " ++ decider.policy ++ " grants " ++ want.text ++ " on " ++ decider.path }
    else
      { decision with
        reason := "policy " ++ first.policy ++ " grants " ++ capabilitiesText capabilities ++
          " on " ++ first.path ++ ", which does not include " ++ want.text }

/-- `Allowed`. -/
def Engine.allowed (e : Engine) (id : AccessIdentity) (path : String) (want : Capability) : Bool :=
  (e.explain id path want).allowed

/-- `MayReach`. -/
def Engine.mayReach (e : Engine) (id : AccessIdentity) (start : String) (want : Capability) :
    Bool :=
  (e.rulesFor id).any fun rule =>
    rule.capabilities.contains want &&
      ((cutStar rule.path.toList).1 |> fun literal =>
        start.toList.isPrefixOf literal || literal.isPrefixOf start.toList)

/-! ## What the engine decides -/

/-- The rule matches the path, and no rule of the list matches it more specifically. -/
def Decides (rules : List Rule) (path : String) (rule : Rule) : Prop :=
  rule ∈ rules ∧ ∃ score, matchPath rule.path path = some score ∧
    ∀ other ∈ rules, ∀ otherScore, matchPath other.path path = some otherScore → otherScore ≤ score

def Grants (rules : List Rule) (path : String) (want : Capability) : Prop :=
  (∃ rule, Decides rules path rule ∧ want ∈ rule.capabilities) ∧
    ∀ rule, Decides rules path rule → .deny ∉ rule.capabilities

theorem mem_foldl_unless {α : Type} [BEq α] [LawfulBEq α] {items seen : List α} {a : α} :
    a ∈ items.foldl (fun seen x => if seen.contains x then seen else seen ++ [x]) seen ↔
      a ∈ seen ∨ a ∈ items := by
  induction items generalizing seen with
  | nil => simp
  | cons item rest ih =>
    rw [List.foldl_cons, ih]
    split
    · rename_i hseen
      have hmem : item ∈ seen := List.contains_iff_mem.mp hseen
      constructor
      · exact fun hin => hin.imp_right (List.mem_cons_of_mem item)
      · rintro (hin | hin)
        · exact .inl hin
        · rcases List.mem_cons.mp hin with rfl | hrest
          · exact .inl hmem
          · exact .inr hrest
    · simp [or_assoc]

theorem mem_effective {rules : List Rule} {c : Capability} :
    c ∈ effective rules ↔ ∃ rule ∈ rules, c ∈ rule.capabilities := by
  unfold effective
  rw [mem_foldl_unless]
  simp

theorem mem_policiesFor {e : Engine} {id : AccessIdentity} {name : String} :
    name ∈ e.policiesFor id ↔
      ∃ b ∈ e.bindings, b.condition.selects id = true ∧ name ∈ b.policies := by
  unfold Engine.policiesFor Engine.boundVia
  rw [mem_foldl_unless]
  simp [and_assoc]

theorem foldl_considerRule (path : String) (rules : List Rule)
    (best : List Rule × Option Specificity) :
    rules.foldl (considerRule path) best =
      (rules.filterMap fun r => (matchPath r.path path).map fun s => (r, s)).foldl
        Best.keepBest best := by
  induction rules generalizing best with
  | nil => rfl
  | cons rule rest ih =>
    rw [List.foldl_cons, ih]
    unfold considerRule
    cases hmatch : matchPath rule.path path with
    | none => simp [hmatch]
    | some score =>
      simp only [List.filterMap_cons, hmatch, Option.map_some, List.foldl_cons]
      congr 1
      unfold Best.keepBest
      cases best.2 with
      | none => rfl
      | some top => simp only [Specificity.beats_iff]

theorem mem_bestRules {path : String} {rules : List Rule} {rule : Rule} :
    rule ∈ bestRules path rules ↔ Decides rules path rule := by
  have hscored : ∀ r s, (r, s) ∈ (rules.filterMap fun r =>
      (matchPath r.path path).map fun s => (r, s)) ↔
        r ∈ rules ∧ matchPath r.path path = some s := by
    intro r s
    simp only [List.mem_filterMap, Option.map_eq_some_iff, Prod.mk.injEq]
    constructor
    · rintro ⟨found, hmem, score, hmatch, rfl, rfl⟩
      exact ⟨hmem, hmatch⟩
    · exact fun ⟨hmem, hmatch⟩ => ⟨r, hmem, s, hmatch, rfl, rfl⟩
  unfold bestRules Decides
  rw [foldl_considerRule, Best.mem_best]
  constructor
  · rintro ⟨score, hmem, htop⟩
    obtain ⟨hrule, hmatch⟩ := (hscored rule score).mp hmem
    refine ⟨hrule, score, hmatch, ?_⟩
    intro other hother otherScore hscore
    exact htop (other, otherScore) ((hscored other otherScore).mpr ⟨hother, hscore⟩)
  · rintro ⟨hrule, score, hmatch, htop⟩
    refine ⟨score, (hscored rule score).mpr ⟨hrule, hmatch⟩, ?_⟩
    rintro ⟨other, otherScore⟩ hmem
    obtain ⟨hother, hscore⟩ := (hscored other otherScore).mp hmem
    exact htop other hother otherScore hscore

/-- `Explain` allows exactly what the deciding rules grant. -/
theorem allowed_iff {e : Engine} {id : AccessIdentity} {path : String} {want : Capability} :
    e.allowed id path want = true ↔ Grants (e.rulesFor id) path want := by
  have hdecides : ∀ rule, Decides (e.rulesFor id) path rule ↔
    rule ∈ bestRules path (e.rulesFor id) :=
    fun rule => mem_bestRules.symm
  have hdeny : ∀ c, (effective (bestRules path (e.rulesFor id))).contains c = true ↔
      ∃ rule ∈ bestRules path (e.rulesFor id), c ∈ rule.capabilities := by
    intro c
    rw [List.contains_iff_mem, mem_effective]
  unfold Engine.allowed Engine.explain Grants
  simp only [hdecides]
  generalize bestRules path (e.rulesFor id) = best at hdeny
  cases best with
  | nil => simp
  | cons first others =>
    dsimp only
    split
    · rename_i hdenied
      obtain ⟨rule, hmem, hcap⟩ := (hdeny .deny).mp hdenied
      simp only [Bool.false_eq_true, false_iff, not_and]
      exact fun _ hnone => hnone rule hmem hcap
    · rename_i hdenied
      split
      · rename_i hwant
        simp only [true_iff]
        exact ⟨(hdeny want).mp hwant, fun rule hmem hcap =>
          hdenied ((hdeny .deny).mpr ⟨rule, hmem, hcap⟩)⟩
      · rename_i hwant
        simp only [Bool.false_eq_true, false_iff, not_and]
        exact fun hgrant => absurd ((hdeny want).mpr hgrant) hwant

end FondacoFormal.Access
