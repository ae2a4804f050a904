import FondacoFormal.Access.Engine
import FondacoFormal.Auth.Identity

/-!
# Access control as configuration

The older fields (a feed's `anonymous` and `publishers`, the site's `admins`) are
compiled into policies and bindings, the explicit ones are appended, and `New`
checks the whole before it makes an engine of it.
-/

namespace FondacoFormal.Access

open Auth

/-! ## `New` -/

/-- `Rule` before it is checked; a capability is any text. -/
structure RuleSpec where
  path : String
  capabilities : List String
  deriving DecidableEq, Repr

/-- `Policy` before it is checked. -/
structure PolicySpec where
  name : String
  rules : List RuleSpec
  deriving DecidableEq, Repr

def knownCapabilities : List Capability :=
  [.read, .list, .publish, .create, .update, .delete, .deny]

/-- `Known`, with what the text names. -/
def parseCapability (text : String) : Option Capability :=
  knownCapabilities.find? fun c => c.text = text

def parseCapabilities : List String → Except String (List Capability)
  | [] => .ok []
  | text :: rest =>
    match parseCapability text, parseCapabilities rest with
    | none, _ => .error text
    | some _, .error unknown => .error unknown
    | some c, .ok more => .ok (c :: more)

/-- `validRule`: the rule as the engine holds it. -/
def validRule (policy : String) (i : Nat) (r : RuleSpec) : Except String Rule :=
  let at_ := "policy " ++ policy ++ ": rules[" ++ toString i ++ "]"
  if r.path = "" then .error (at_ ++ " has no path")
  else if (cutStar r.path.toList).1.contains '*' then
    .error (at_ ++ ": " ++ r.path.quote ++
      " — \"*\" is only allowed at the end; use \"+\" for one segment")
  else if r.capabilities = [] then .error (at_ ++ " grants nothing")
  else
    match parseCapabilities r.capabilities with
    | .ok capabilities => .ok ⟨r.path, capabilities, policy⟩
    | .error unknown => .error (at_ ++ ": " ++ unknown.quote ++ " is not a capability (have " ++
        capabilitiesText knownCapabilities ++ ")")

def compileRules (policy : String) : Nat → List RuleSpec → Except String (List Rule)
  | _, [] => .ok []
  | i, r :: rest =>
    match validRule policy i r with
    | .error error => .error error
    | .ok rule =>
      match compileRules policy (i + 1) rest with
      | .error error => .error error
      | .ok rules => .ok (rule :: rules)

def compilePolicies (done : List Policy) : List PolicySpec → Except String (List Policy)
  | [] => .ok done
  | p :: rest =>
    if p.name = "" then .error "a policy has no name"
    else if done.any fun q => q.name = p.name then
      .error ("policy " ++ p.name.quote ++ " is defined twice")
    else
      match compileRules p.name 0 p.rules with
      | .error error => .error error
      | .ok rules => compilePolicies (done ++ [⟨p.name, rules⟩]) rest

def bindingError (policies : List Policy) : Nat → List Binding → Option String
  | _, [] => none
  | i, b :: rest =>
    if b.policies = [] then some ("bindings[" ++ toString i ++ "] attaches no policies")
    else
      match b.policies.find? fun name => !policies.any fun p => p.name = name with
      | some name => some ("bindings[" ++ toString i ++ "] names policy " ++ name.quote ++
          ", which does not exist")
      | none => bindingError policies (i + 1) rest

/-- `New`. -/
def newEngine (policies : List PolicySpec) (bindings : List Binding) : Except String Engine :=
  match compilePolicies [] policies with
  | .error error => .error error
  | .ok compiled =>
    match bindingError compiled 0 bindings with
    | some error => .error error
    | none => .ok ⟨compiled, bindings⟩

/-! ## The configuration -/

/-- `FeedConfig`, as far as access goes. -/
structure FeedConfig where
  name : String
  anonymous : Bool := false
  publishers : List String := []
  deriving DecidableEq, Repr

/-- `Config`, as far as access goes. -/
structure Config where
  feeds : List FeedConfig
  admins : List String := []
  accessPolicies : List PolicySpec := []
  bindings : List Binding := []
  deriving DecidableEq, Repr

/-- `FeedPath`. -/
def feedPath (feed coordinate : String) : String :=
  if coordinate = "" then "feed/" ++ feed else "feed/" ++ feed ++ "/" ++ coordinate

/-- `strings.Cut` at an at sign. -/
def cutAtSign (s : String) : String × String :=
  (String.ofList (s.toList.takeWhile fun c => c ≠ '@'),
    String.ofList ((s.toList.dropWhile fun c => c ≠ '@').drop 1))

/-- `matchFromPattern`. -/
def matchFromPattern (pattern : String) : Match :=
  if pattern = "*" then { authenticated := true }
  else
    match cutColon pattern with
    | none => { kind := "none" }
    | some (kind, rest) =>
      if kind = "token" ∨ kind = "oidc" then { kind := kind, subject := rest }
      else if kind = "project" then
        { kind := "oidc", projectPath := (cutAtSign rest).1, ref := (cutAtSign rest).2 }
      else { kind := "none" }

def readName (feed : String) : String :=
  "feed:" ++ feed ++ ":read"

def publishName (feed : String) : String :=
  "feed:" ++ feed ++ ":publish"

def feedPolicies (f : FeedConfig) : List PolicySpec :=
  ⟨readName f.name, [⟨feedPath f.name "*", ["read", "list"]⟩]⟩ ::
    if f.publishers = [] then []
    else [⟨publishName f.name, [⟨feedPath f.name "*", ["publish"]⟩]⟩]

def feedBindings (f : FeedConfig) : List Binding :=
  { policies := [readName f.name], condition := { authenticated := !f.anonymous } } ::
    f.publishers.map fun pattern =>
      { policies := [publishName f.name], condition := matchFromPattern pattern }

/-- `sysAreas`. -/
def sysAreas : List String :=
  ["sys/config", "sys/tokens", "sys/quarantine", "sys/conflicts", "sys/replication", "sys/status",
    "sys/feeds"]

/-- `operationalAreas`. -/
def operationalAreas : List String :=
  ["sys/status", "sys/feeds", "sys/replication", "sys/conflicts", "sys/quarantine"]

def adminPolicy : PolicySpec where
  name := "sys:admin"
  rules := ("sys/*" :: sysAreas).map fun area =>
    ⟨area, ["read", "list", "create", "update", "delete"]⟩

def operationalPolicy : PolicySpec where
  name := "sys:read"
  rules := operationalAreas.map fun area => ⟨area, ["read", "list"]⟩

namespace Config

/-- `compileLegacy`, the policies. -/
def legacyPolicies (c : Config) : List PolicySpec :=
  c.feeds.flatMap feedPolicies ++ (if c.admins = [] then [] else [adminPolicy]) ++
    [operationalPolicy]

/-- `compileLegacy`, the bindings. -/
def legacyBindings (c : Config) : List Binding :=
  c.feeds.flatMap feedBindings ++
    (c.admins.map fun pattern =>
      { policies := ["sys:admin"], condition := matchFromPattern pattern }) ++
    [{ policies := ["sys:read"], condition := { authenticated := true } }]

/-- `AccessEngine`. -/
def accessEngine (c : Config) : Except String Engine :=
  newEngine (c.legacyPolicies ++ c.accessPolicies) (c.legacyBindings ++ c.bindings)

end Config

/-- `feedNameRE`: lower-case letters and digits, with dashes inside. -/
def validFeedName (name : String) : Bool :=
  name.toList.all (fun c => c.isLower || c.isDigit || c = '-') &&
    name.toList.head?.any (fun c => c ≠ '-') && name.toList.getLast?.any (fun c => c ≠ '-')

end FondacoFormal.Access
