import FondacoFormal.Server.GroupStage

/-!
# The rules of a group

A group has an access rule, a quarantine and policies of its own, and so has every group among
its members.
-/

namespace FondacoFormal.Server

open Library State Pipeline Api Auth Access

/-! ## The policies of the group itself -/

def PoliciesBind (chain : Chain) : Prop :=
  ∀ server group id req s intent hit s', group.chain = chain →
    Sends server group id req s intent hit s' →
      (chain.onResolve id hit.shown.coord).allow = true ∧ (chain.onServe id hit.shown).allow = true

def everyone : Engine where
  policies := [⟨"all", [⟨"*", [.read, .list], "all"⟩]⟩]
  bindings := [⟨"", ["all"], {}⟩]

theorem everyone_mayServe (id : Identity) (feed : String) (intent : Intent) :
    (mayServe everyone id feed intent).allowed = true := by
  have hrules (id : AccessIdentity) : everyone.rulesFor id = [⟨"*", [.read, .list], "all"⟩] := by
    have hselects : Match.selects {} id = true := by simp [Match.selects, meets]
    simp [Engine.rulesFor, Engine.policiesFor, Engine.boundVia, everyone, hselects, Engine.rulesOf]
  have hmatch (path : String) : ∃ score, matchPath "*" path = some score := by
    obtain ⟨first, more, hsegments⟩ : ∃ first more, splitPath path.toList = first :: more :=
      List.exists_cons_of_ne_nil (List.splitOn_ne_nil _ _)
    refine ⟨⟨false, 0, 0, 0⟩, ?_⟩
    unfold matchPath
    rw [hsegments]
    rfl
  refine allowed_iff.mpr ?_
  rw [hrules]
  obtain ⟨score, hscore⟩ := hmatch (feedPath feed intent.coord.text)
  constructor
  · refine ⟨_, ⟨List.mem_singleton_self _, score, hscore, ?_⟩, ?_⟩
    · intro other hother otherScore hmatch
      rw [List.mem_singleton.mp hother, hscore] at hmatch
      cases hmatch
      exact le_refl score
    · unfold capabilityFor
      split_ifs <;> simp
  · intro rule hdecides
    rw [List.mem_singleton.mp hdecides.1]
    simp

/-- The policies of a group bind what is served through it exactly when its chain refuses
nothing in `OnServe` that it lets through in `OnResolve`. -/
theorem group_policies_bind_iff (chain : Chain) :
    PoliciesBind chain ↔ ∀ id shown, (chain.onResolve id shown.coord).allow = true →
      (chain.onServe id shown).allow = true := by
  constructor
  · intro hbind id shown hresolve
    let st : Stage := { leaf := "open", shown := shown, cached := ["all", "open"] }
    let chains (name : String) : Chain := if name = "all" then chain else .empty
    obtain ⟨source, s', hsends⟩ := st.group_sends everyone id (show IntentKind.artifact ≠ .synthetic
      from nofun) chains List.mem_cons_self (List.mem_singleton_self "open")
      (fun name hname => .tail _ hname) (.inl rfl) (everyone_mayServe _ _ _) hresolve
      (everyone_mayServe _ _ _) rfl rfl ⟨"GET", "pkg", ""⟩
    exact (hbind _ _ _ _ _ _ _ _ rfl hsends).2
  · intro hquiet server group id req s intent hit s' hchain hsends
    obtain ⟨-, hentered⟩ := admitGroup_ok hsends.admitted
    obtain ⟨_, _, -, hcleared⟩ := findFirst_cleared (congrArg Prod.snd hsends.found)
    obtain ⟨_, -, hshown⟩ := hcleared.described
    have hcoord : hit.shown.coord = intent.coord := by
      rw [hshown]
      rfl
    rw [hchain, ← hcoord] at hentered
    exact ⟨hentered, hquiet id hit.shown hentered⟩

def serveTimeOnly : Chain where
  onResolve _ _ := ⟨true, ""⟩
  onServe _ _ := ⟨false, "no licence"⟩

/-- The artifact goes out through a group whose policies refuse it. -/
theorem served_past_group_policy :
    (∀ shown, (serveTimeOnly.onServe stranger shown).allow = false) ∧
    (groupHandler readersServer { twoFeeds with chain := serveTimeOnly } stranger
        ⟨"GET", "pkg", ""⟩ (storeArtifact "open" "pkg" "d" [1] {})).2.toOption.map
      (fun response => (response.status, response.body)) = some (200, [1]) := by
  refine ⟨fun _ => rfl, ?_⟩
  decide +kernel

/-! ## Nested groups -/

/-- `maxGroupDepth`. -/
def maxGroupDepth : Nat := 5

/-- `walkGroup` finds no cycle and no deeper nesting; `members` of a leaf feed are empty. -/
def walkGroup (members : String → List String) : Nat → List String → String → Bool
  | depth, path, name =>
    !path.contains name &&
      (members name).all fun member =>
        members member = [] ||
          match depth with
          | 0 => false
          | depth + 1 => walkGroup members depth (path ++ [name]) member

abbrev Found : Type := List (String × ReadFeed)

/-- One member is followed, unless it was seen; `nested` resolves a group. -/
def resolveMember (members : String → List String) (leaves : String → Option ReadFeed)
    (nested : String → Found → Found) (found : Found) (member : String) : Found :=
  if (found.map (·.1)).contains member then found
  else if members member ≠ [] then nested member found
  else
    match leaves member with
    | none => found
    | some fr => found ++ [(member, fr)]

/-- `resolveMembers`, down to a depth. -/
def resolveMembers (members : String → List String) (leaves : String → Option ReadFeed) :
    Nat → String → Found → Found
  | 0, _, found => found
  | depth + 1, name, found =>
    (members name).foldl (resolveMember members leaves (resolveMembers members leaves depth)) found

/-- A member path from a group to a leaf feed, with the groups between them. -/
inductive Leads (members : String → List String) : String → List String → String → Prop where
  | member {group leaf : String} (mem : leaf ∈ members group) (isLeaf : members leaf = []) :
      Leads members group [] leaf
  | nested {group inner leaf : String} {via : List String} (mem : inner ∈ members group)
      (isGroup : members inner ≠ []) (rest : Leads members inner via leaf) :
      Leads members group (inner :: via) leaf

section Flattening

variable {members : String → List String} {leaves : String → Option ReadFeed} {group leaf : String}
  {depth : Nat}

theorem Leads.length_le {path via : List String} (leads : Leads members group via leaf)
    (hwalk : walkGroup members depth path group = true) : via.length ≤ depth := by
  induction leads generalizing depth path with
  | member => exact Nat.zero_le depth
  | @nested group inner leaf via mem isGroup _ ih =>
    unfold walkGroup at hwalk
    rw [Bool.and_eq_true, List.all_eq_true] at hwalk
    have hinner := hwalk.2 inner mem
    cases depth with
    | zero => simp [isGroup] at hinner
    | succ depth =>
      simp only [isGroup, decide_false, Bool.false_or] at hinner
      exact Nat.succ_le_succ (ih hinner)

variable {found : Found}

section Kept

variable {P : Found → Prop}
  (hleaf : ∀ found name fr, P found → members name = [] → leaves name = some fr →
    P (found ++ [(name, fr)]))
include hleaf

theorem foldl_resolveMember {nested : String → Found → Found}
    (hkeeps : ∀ name found, P found → P (nested name found)) (list : List String)
    (hfound : P found) : P (list.foldl (resolveMember members leaves nested) found) := by
  refine List.foldlRecOn (motive := P) _ _ hfound ?_
  intro found hfound member _
  -- a member adds nothing, what its group adds, or itself
  unfold resolveMember
  split_ifs with hseen hgroup
  · exact hfound
  · exact hkeeps member found hfound
  · split
    · exact hfound
    next fr hfr => exact hleaf found member fr hfound (not_not.mp hgroup) hfr

theorem resolveMembers_keeps (depth : Nat) (name : String) (hfound : P found) :
    P (resolveMembers members leaves depth name found) := by
  induction depth generalizing name found with
  | zero => exact hfound
  | succ depth ih => exact foldl_resolveMember hleaf (fun name found => ih name) _ hfound

theorem foldl_resolveMember_keeps (depth : Nat) (list : List String) (hfound : P found) :
    P (list.foldl (resolveMember members leaves (resolveMembers members leaves depth)) found) :=
  foldl_resolveMember hleaf (fun name _ => resolveMembers_keeps hleaf depth name) list hfound

end Kept

theorem resolveMembers_sound (depth : Nat) (name : String) :
    ∀ entry ∈ resolveMembers members leaves depth name [], leaves entry.1 = some entry.2 := by
  apply resolveMembers_keeps (P := fun found => ∀ entry ∈ found, leaves entry.1 = some entry.2)
  · intro found name fr hfound _ hfr
    exact List.forall_mem_append.mpr ⟨hfound, List.forall_mem_singleton.mpr hfr⟩
  · exact fun _ hnone => absurd hnone List.not_mem_nil

def LeavesOnly (members : String → List String) (found : Found) : Prop :=
  ∀ entry ∈ found, members entry.1 = []

theorem LeavesOnly.add {name : String} {fr : ReadFeed} (honly : LeavesOnly members found)
    (hname : members name = []) : LeavesOnly members (found ++ [(name, fr)]) :=
  List.forall_mem_append.mpr ⟨honly, List.forall_mem_singleton.mpr hname⟩

theorem resolveMembers_complete (hleaves : ∀ name, (leaves name).isSome) {via : List String}
    (leads : Leads members group via leaf) (hdepth : via.length < depth)
    (honly : LeavesOnly members found) :
    leaf ∈ (resolveMembers members leaves depth group found).map (·.1) := by
  have hgrows : ∀ (leaf : String) (found : Found) name fr, leaf ∈ found.map (·.1) →
      members name = [] → leaves name = some fr → leaf ∈ (found ++ [(name, fr)]).map (·.1) := by
    intro leaf found name fr hfound _ _
    rw [List.map_append]
    exact List.mem_append_left _ hfound
  -- the member on the path is followed at some point, and what it finds stays
  induction leads generalizing depth found with
  | @member group leaf mem isLeaf =>
    obtain ⟨depth, rfl⟩ := Nat.exists_eq_add_of_lt hdepth
    obtain ⟨before, after, hsplit⟩ := List.append_of_mem mem
    obtain ⟨fr, hfr⟩ := Option.isSome_iff_exists.mp (hleaves leaf)
    rw [resolveMembers, hsplit, List.foldl_append, List.foldl_cons]
    apply foldl_resolveMember_keeps (P := fun found => leaf ∈ found.map (·.1)) (hgrows leaf)
    unfold resolveMember
    split_ifs with hseen hgroup
    · exact List.contains_iff_mem.mp hseen
    · exact absurd isLeaf hgroup
    · rw [hfr]
      simp
  | @nested group inner leaf via mem isGroup _ ih =>
    obtain ⟨depth, rfl⟩ : ∃ deeper, depth = deeper + 1 := ⟨depth - 1, by omega⟩
    have hdeeper : via.length < depth := Nat.lt_of_succ_lt_succ hdepth
    obtain ⟨before, after, hsplit⟩ := List.append_of_mem mem
    rw [resolveMembers, hsplit, List.foldl_append, List.foldl_cons]
    apply foldl_resolveMember_keeps (P := fun found => leaf ∈ found.map (·.1)) (hgrows leaf)
    have honly' : LeavesOnly members (before.foldl
        (resolveMember members leaves (resolveMembers members leaves depth)) found) :=
      foldl_resolveMember_keeps (P := LeavesOnly members)
        (fun _ _ _ honly hname _ => honly.add hname) depth before honly
    unfold resolveMember
    split_ifs with hseen
    · obtain ⟨entry, hentry, heq⟩ := List.mem_map.mp (List.contains_iff_mem.mp hseen)
      exact absurd (heq ▸ honly' entry hentry) isGroup
    · exact ih hdeeper honly'

end Flattening

/-! ## The rules of nested groups -/

/-- What is configured: access rules, member lists that validation accepted, the policies of
every feed and group; and the quarantine. -/
structure Rules where
  engine : Engine
  members : String → List String
  valid : ∀ name, walkGroup members maxGroupDepth [] name = true
  chain : String → Chain
  quarantine : Table QuarantineKey QuarantineRow

namespace Rules

variable (rules : Rules)

structure Allows (name : String) (id : Identity) (intent : Intent) (shown : ServedArtifact) :
    Prop where
  access : (mayServe rules.engine id name intent).allowed = true
  quarantine : activeRow (quarantineOf { quarantine := rules.quarantine } name)
    intent.coord.text = none
  resolve : ((rules.chain name).onResolve id intent.coord).allow = true
  serve : ((rules.chain name).onServe id shown).allow = true

/-- A running site has these rules; `leaves` are its feeds that are not groups. -/
structure Governs (server : ReadServer) (leaves : String → Option ReadFeed) (s : ReadStore) :
    Prop where
  engine : server.engine = rules.engine
  quarantine : s.tables.quarantine = rules.quarantine
  leaf : ∀ name fr, leaves name = some fr → fr.feed.name = name ∧ fr.chain = rules.chain name

/-- A group as `mountGroups` builds it. -/
def mountGroup (leaves : String → Option ReadFeed) (feed : Feed) (module : FormatModule) :
    ReadGroup where
  feed := feed
  module := module
  chain := rules.chain feed.name
  members := (resolveMembers rules.members leaves (maxGroupDepth + 1) feed.name []).map (·.2)

def Nested (group leaf : String) : Prop :=
  ∃ inner, ∀ via, Leads rules.members group via leaf → inner ∈ via

/-- Whatever of a nested leaf feed is served through a group is allowed by every group on a
member path between them. -/
def NestedKept : Prop :=
  ∀ server leaves s feed module id req intent leaf shown,
    rules.Governs server leaves s →
    Serves server (rules.mountGroup leaves feed module) id req s intent leaf shown →
    rules.Nested feed.name leaf →
    ∀ via inner, Leads rules.members feed.name via leaf → inner ∈ via →
      rules.Allows inner id intent shown

def Shows (intent : Intent) (shown : ServedArtifact) : Prop :=
  shown.coord = intent.coord ∧
    (intent.kind = .artifact ∨ intent.kind = .search ∧ shown.metadata = [])

/-- A group between two others never refuses what the access rules and policies of the outer
group and of the leaf feed allow. -/
def InnerIdle : Prop :=
  ∀ group leaf via inner id intent shown,
    rules.Nested group leaf → Leads rules.members group via leaf → inner ∈ via →
    Shows intent shown →
    (mayServe rules.engine id group intent).allowed = true →
    ((rules.chain group).onResolve id intent.coord).allow = true →
    (mayServe rules.engine id leaf intent).allowed = true →
    ((rules.chain leaf).onResolve id intent.coord).allow = true →
    ((rules.chain leaf).onServe id shown).allow = true →
    rules.Allows inner id intent shown

variable {rules}

theorem Allows.congr {name : String} {id : Identity} {intent other : Intent}
    {shown : ServedArtifact}
    (hallows : rules.Allows name id intent shown) (hcoord : intent.coord = other.coord)
    (hkind : intent.kind = .search ↔ other.kind = .search) : rules.Allows name id other shown where
  access := mayServe_congr _ _ _ hcoord hkind ▸ hallows.access
  quarantine := hcoord ▸ hallows.quarantine
  resolve := hcoord ▸ hallows.resolve
  serve := hallows.serve

/-- A member of a mounted group is the leaf feed of its name, under the rules of that name. -/
theorem Governs.member {server : ReadServer} {leaves : String → Option ReadFeed} {s : ReadStore}
    (governs : rules.Governs server leaves s) {feed : Feed} {module : FormatModule}
    {member : ReadFeed}
    (hmember : member ∈ (rules.mountGroup leaves feed module).members) :
    member.chain = rules.chain member.feed.name := by
  obtain ⟨entry, hentry, rfl⟩ := List.mem_map.mp hmember
  have hleaf := resolveMembers_sound _ _ entry hentry
  obtain ⟨hname, hchain⟩ := governs.leaf entry.1 entry.2 hleaf
  rw [hchain, hname]

theorem nestedKept_of_innerIdle (hidle : rules.InnerIdle) : rules.NestedKept := by
  intro server leaves s feed module id req intent leaf shown governs serves hnested via inner hleads
    hinner
  obtain ⟨⟨hgroup, hentered⟩, member, hmember, hname, s', result, hcleared⟩ := serves.cleared
  have hchain := governs.member hmember
  obtain ⟨metadata, hmetadata, hshown⟩ := hcleared.described
  have haccess := hcleared.access
  have hresolve := hcleared.resolve
  have hserve := hcleared.serve
  rw [governs.engine] at hgroup haccess
  rw [hname] at haccess
  rw [hchain, hname] at hresolve hserve
  by_cases hsearch : intent.kind = .search
  · have hplain : shown.metadata = [] := by
      unfold artifactMetadata at hmetadata
      rw [if_pos (.inl (by rw [hsearch]; nofun))] at hmetadata
      cases hmetadata
      rw [hshown]
      rfl
    exact hidle feed.name leaf via inner id intent shown hnested hleads hinner
      ⟨by rw [hshown]; rfl, .inr ⟨hsearch, hplain⟩⟩ hgroup hentered haccess hresolve hserve
  · -- a document is read like an artifact, so the condition is used at an artifact
    have hread : intent.kind = .search ↔
      ({ intent with kind := .artifact } : Intent).kind = .search :=
      ⟨fun heq => absurd heq hsearch, nofun⟩
    have hsame (name : String) := mayServe_congr rules.engine id name
      (show intent.coord = ({ intent with kind := .artifact } : Intent).coord from rfl) hread
    rw [hsame] at hgroup haccess
    exact (hidle feed.name leaf via inner id { intent with kind := .artifact } shown hnested hleads
      hinner ⟨by rw [hshown]; rfl, .inl rfl⟩ hgroup hentered haccess hresolve hserve).congr rfl
      hread.symm

theorem innerIdle_of_nestedKept (hkept : rules.NestedKept) : rules.InnerIdle := by
  intro group leaf via inner id intent shown hnested hleads hinner hshows hgroup hpasses haccess
    hresolve hserve
  -- the leaf feed has the artifact, and no other feed has anything
  let module := Stage.module ⟨leaf, shown, {}, []⟩ intent.kind
  let leaves (name : String) : Option ReadFeed :=
    some (Stage.member ⟨leaf, shown, {}, []⟩ intent.kind (rules.chain name) name)
  let found := resolveMembers rules.members leaves (maxGroupDepth + 1) group []
  let st : Stage :=
    { leaf := leaf
      shown := shown
      tables := { quarantine := rules.quarantine }
      cached := group :: found.map (·.1) }
  have hkind : intent.kind ≠ .synthetic := by
    rcases hshows.2 with hkind | ⟨hkind, -⟩ <;> rw [hkind] <;> nofun
  have hmetadata : intent.kind = .artifact ∨ shown.metadata = [] :=
    hshows.2.imp (fun hartifact => hartifact) fun hsearch => hsearch.2
  have hmem : leaf ∈ found.map (·.1) :=
    resolveMembers_complete (fun _ => rfl) hleads
      (Nat.lt_succ_of_le (hleads.length_le (rules.valid group))) fun _ hnone => nomatch hnone
  have hsame (name : String) : mayServe rules.engine id name intent =
      mayServe rules.engine id name (stageIntent intent.kind shown.coord) :=
    mayServe_congr _ _ _ hshows.1.symm Iff.rfl
  rw [hsame] at hgroup haccess
  rw [← hshows.1] at hpasses hresolve
  obtain ⟨source, s', hsends⟩ := st.group_sends rules.engine id hkind rules.chain List.mem_cons_self
    hmem (fun name hname => .tail _ hname) hmetadata hgroup hpasses haccess hresolve hserve
    ⟨"GET", "pkg", ""⟩
  have hmembers :
    (found.map (·.1)).map (fun name => st.member intent.kind (rules.chain name) name) =
      found.map (·.2) := by
    rw [List.map_map]
    apply List.map_congr_left
    intro entry hentry
    exact Option.some.inj (resolveMembers_sound _ _ entry hentry)
  rw [hmembers] at hsends
  have hgoverns : rules.Governs (stageServer rules.engine) leaves (st.store 0) := by
    refine ⟨rfl, rfl, ?_⟩
    intro name fr hfr
    cases hfr
    exact ⟨rfl, rfl⟩
  exact (hkept _ leaves _ { name := group, format := "raw" } module id _ _ leaf shown hgoverns
    (.hit hsends) hnested via inner hleads hinner).congr hshows.1 Iff.rfl

end Rules

/-- Nested groups keep their rules exactly when no group between two others refuses anything
that the outer group and the leaf feed allow. -/
theorem nested_rules_kept_iff (rules : Rules) : rules.NestedKept ↔ rules.InnerIdle :=
  ⟨Rules.innerIdle_of_nestedKept, Rules.nestedKept_of_innerIdle⟩

def innerGroup (name : String) : List String :=
  if name = "all" then ["inner"] else if name = "inner" then ["open"] else []

/-- The stranger gets through the outer group what the inner one would refuse. -/
theorem inner_group_not_asked :
    walkGroup innerGroup maxGroupDepth [] "all" = true ∧
    (∀ via, Leads innerGroup "all" via "open" → "inner" ∈ via) ∧
    (mayServe readersEngine stranger "inner" pkgIntent).allowed = false ∧
    (groupHandler readersServer
        { twoFeeds with
          members := (resolveMembers innerGroup (fun name => some (pkgFeed name))
            (maxGroupDepth + 1)
            "all" []).map (·.2) }
        stranger ⟨"GET", "pkg", ""⟩ (storeArtifact "open" "pkg" "d" [1] {})).2.toOption.map
      (fun response => (response.status, response.body)) = some (200, [1]) := by
  refine ⟨by decide +kernel, ?_, by decide +kernel, by decide +kernel⟩
  intro via leads
  cases leads with
  | member mem isLeaf => exact absurd (List.mem_singleton.mp mem) (by decide)
  | nested mem isGroup rest =>
    rw [List.mem_singleton.mp mem]
    exact List.mem_cons_self

end FondacoFormal.Server
