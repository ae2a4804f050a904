import FondacoFormal.Server.GroupView

/-!
# What is served through a group

The handler of a group sends the first hit among its members, or hands the documents of all
members to `Merge`.
-/

namespace FondacoFormal.Server

open Library Library.Program State Pipeline Api Auth Access

/-! ## What is served through a group -/

structure Sends (server : ReadServer) (group : ReadGroup) (id : Identity) (req : ReadRequest)
    (s : ReadStore) (intent : Intent) (hit : Hit) (s' : ReadStore) : Prop where
  kind : intent.kind ≠ .synthetic
  plain : mergerFor group.module intent = none
  admitted : (admitGroup server group id req s).2 = .ok (.ok intent)
  found : findFirst server id intent group.members {} (admitGroup server group id req s).1 =
    (s', .ok (.ok hit))

theorem Sends.response {server : ReadServer} {group : ReadGroup} {id : Identity} {req : ReadRequest}
    {s s' : ReadStore} {intent : Intent} {hit : Hit}
    (sends : Sends server group id req s intent hit s') :
    groupHandler server group id req s =
      firstHitResponse server req hit.member intent hit.result s' := by
  have hbind : groupHandler server group id req s =
      answerGroup server group id req intent (admitGroup server group id req s).1 := by
    unfold groupHandler
    rw [bind_of_answer sends.admitted]
  rw [hbind]
  unfold answerGroup
  rw [if_neg sends.kind, sends.plain]
  dsimp only
  unfold serveFirstHit
  rw [bind_apply, sends.found]

/-- A member's artifact or document reaches the client through the group. -/
inductive Serves (server : ReadServer) (group : ReadGroup) (id : Identity) (req : ReadRequest)
    (s : ReadStore) (intent : Intent) : String → ServedArtifact → Prop where
  | hit {hit : Hit} {s' : ReadStore} (sends : Sends server group id req s intent hit s') :
      Serves server group id req s intent hit.member.feed.name hit.shown
  | part {merger : GroupMerger} {outcomes : List (String × MemberResult)} {name : String}
      {result : Result} {shown : ServedArtifact}
      (kind : intent.kind ≠ .synthetic)
      (merged : mergerFor group.module intent = some merger)
      (admitted : (admitGroup server group id req s).2 = .ok (.ok intent))
      (asked : (askAll server id intent group.members (admitGroup server group id req s).1).2 =
        .ok outcomes)
      (answered : (name, .answered result shown) ∈ outcomes)
      (short : result.body.length ≤ maxMergePart) :
      Serves server group id req s intent name shown

variable {name : String}

section Served

variable {server : ReadServer} {group : ReadGroup} {id : Identity} {req : ReadRequest}
  {s : ReadStore} {intent : Intent}

theorem admitGroup_ok (hentered : (admitGroup server group id req s).2 = .ok (.ok intent)) :
    (mayServe server.engine id group.feed.name intent).allowed = true ∧
      (group.chain.onResolve id intent.coord).allow = true := by
  unfold admitGroup at hentered
  cases hparse : group.module.parse req with
  | error error =>
    rw [hparse] at hentered
    cases hentered
  | ok parsed =>
    rw [hparse] at hentered
    dsimp only at hentered
    split at hentered
    · cases hentered
    next haccess =>
      obtain ⟨⟨isBlocked, reason⟩, _, hentered⟩ := bind_ok hentered
      dsimp only at hentered
      split at hentered
      · cases hentered
      · split at hentered
        · cases hentered
        next hresolve =>
          cases hentered
          exact ⟨by simpa using haccess, by simpa using hresolve⟩

/-- The group admits what its access rule, its quarantine and its policies let through. -/
theorem admitGroup_run {s' : ReadStore} {reason : String}
    (hparse : group.module.parse req = .ok intent)
    (haccess : (mayServe server.engine id group.feed.name intent).allowed = true)
    (hblocked : blocked server group.feed.name intent.coord.text s = (s', .ok (false, reason)))
    (hresolve : (group.chain.onResolve id intent.coord).allow = true) :
    admitGroup server group id req s = (s', .ok (.ok intent)) := by
  unfold admitGroup
  rw [hparse]
  dsimp only
  rw [if_neg (by simp [haccess]), bind_of_ok hblocked]
  dsimp only
  rw [if_neg Bool.false_ne_true, if_neg (by simp [hresolve])]
  rfl

theorem Serves.cleared {shown : ServedArtifact}
    (serves : Serves server group id req s intent name shown) :
    ((mayServe server.engine id group.feed.name intent).allowed = true ∧
      (group.chain.onResolve id intent.coord).allow = true) ∧
    ∃ member ∈ group.members, member.feed.name = name ∧
      ∃ s' result, Cleared server id intent member s' result shown := by
  cases serves with
  | hit sends =>
    have hfound := congrArg Prod.snd sends.found
    obtain ⟨before, after, hmembers, hcleared⟩ := findFirst_cleared hfound
    exact ⟨admitGroup_ok sends.admitted, _, hmembers ▸ List.mem_append_cons_self, rfl,
      _, _, hcleared⟩
  | part _ _ admitted asked answered _ =>
    obtain ⟨member, hname, before, after, hmembers, hcleared⟩ := askAll_cleared asked answered
    exact ⟨admitGroup_ok admitted, member, hmembers ▸ List.mem_append_cons_self, hname,
      _, _, hcleared⟩

end Served

theorem mayServe_congr (e : Engine) (id : Identity) (name : String) {intent other : Intent}
    (hcoord : intent.coord = other.coord) (hkind : intent.kind = .search ↔ other.kind = .search) :
    mayServe e id name intent = mayServe e id name other := by
  have hcapability : capabilityFor intent = capabilityFor other := by
    simp only [capabilityFor, hkind]
  unfold mayServe
  rw [hcoord, hcapability]

/-! ## A site where one feed has one artifact -/

/-- What is put on the stage: the feed that has the artifact, the artifact, the tables, and
the feeds whose verdict is cached. -/
structure Stage where
  leaf : String
  shown : ServedArtifact
  tables : SiteState := {}
  cached : List String

def stageIntent (kind : IntentKind) (coord : PackageCoordinate) : Intent where
  kind := kind
  coord := coord
  remotePath := "pkg"

def stageServer (engine : Engine) : ReadServer where
  env := calmEnv
  engine := engine
  database := true
  quarantineTTL := 30

namespace Stage

variable (st : Stage)

def module (kind : IntentKind) : FormatModule where
  name := "raw"
  parse _ := .ok (stageIntent kind st.shown.coord)
  metadataSource := some
    { metadataIntent := fun _ coord => some (stageIntent .metadata coord)
      extractMetadata := fun _ _ => .ok st.shown.metadata }

def member (kind : IntentKind) (chain : Chain) (name : String) : ReadFeed where
  feed := { name := name, format := "raw" }
  module := st.module kind
  chain := chain

def store (n : Nat) : ReadStore where
  manifests := (∅ : Table PathKey (Except Failure Manifest)).put (st.leaf, "pkg")
    (.ok (manifestOf st.shown.sha256))
  blobs := (∅ : Table String Bytes).put st.shown.sha256 (List.replicate st.shown.size 0)
  tables := st.tables
  entries := st.cached.foldl
    (fun entries name => entries.put (name, st.shown.coord.text) ⟨false, "", 1⟩) ∅
  ticks := n

def result (source : Source) : Result where
  body := List.replicate st.shown.size 0
  size := st.shown.size
  sha256 := st.shown.sha256
  source := source
  blobKey := Storage.blobKey st.shown.sha256

theorem loadManifest_leaf (n : Nat) :
    loadManifest calmEnv st.leaf "pkg" (st.store n) =
      (st.store (n + 1), .ok (manifestOf st.shown.sha256)) :=
  loadManifest_found rfl (Table.find_put_self _ _ _)

theorem loadManifest_other (hname : name ≠ st.leaf) (n : Nat) :
    loadManifest calmEnv name "pkg" (st.store n) = (st.store (n + 1),
      .error (.wrapping .notFound ("blob manifests/" ++ name ++ "/" ++ "pkg"))) :=
  loadManifest_absent rfl (Table.find_put_of_ne _ _ fun heq => hname (congrArg Prod.fst heq))

theorem getDocument_run (key : PathKey) (n : Nat) :
    getDocument calmEnv key (st.store n) = (st.store (n + 1),
      .error (.wrapping .notFound ("blob meta/" ++ key.1 ++ "/" ++ key.2))) :=
  rfl

theorem openBlob_run (source : Source) (n : Nat) :
    openBlob calmEnv (manifestOf st.shown.sha256) source (st.store n) =
      (st.store (n + 1), .ok (st.result source)) := by
  have hget : getBlob calmEnv st.shown.sha256 (st.store n) =
      (st.store (n + 1), .ok (List.replicate st.shown.size 0)) :=
    getBlob_found rfl (Table.find_put_self _ _ _)
  unfold openBlob inContext
  simp only [bind_apply, attempt, manifestOf, hget, pure_apply]
  simp [result, Pipeline.lookup]

theorem blocked_cached (engine : Engine) (hname : name ∈ st.cached) (n : Nat) :
    blocked (stageServer engine) name st.shown.coord.text (st.store n) =
      (st.store (n + 1), .ok (false, "")) := by
  have hfind : (st.store (n + 1)).entries.find (name, st.shown.coord.text) =
      some ⟨false, "", 1⟩ := by
    unfold store
    dsimp only
    obtain ⟨before, after, hsplit⟩ := List.append_of_mem hname
    rw [hsplit, List.foldl_append, List.foldl_cons]
    refine List.foldlRecOn
      (motive := fun entries : Table PathKey QuarantineEntry =>
        entries.find (name, st.shown.coord.text) = some ⟨false, "", 1⟩)
      after _ (Table.find_put_self _ _ _) ?_
    intro entries hentries other _
    rw [Table.find_put]
    split_ifs
    · rfl
    · exact hentries
  have htick : tick (st.store n) = (st.store (n + 1), .ok n) := rfl
  unfold blocked
  rw [if_neg (by simp [stageServer]), bind_apply, htick]
  dsimp only
  rw [bind_apply]
  dsimp only [reads]
  rw [hfind]
  rfl

theorem pkg_valid : validRemotePath "pkg" = true := by
  decide

variable {kind : IntentKind}

section Serving

variable (fr : ReadFeed) (hup : fr.upstream = none) (coord : PackageCoordinate) (n : Nat)
include hup

theorem serveMetadata_leaf (hname : fr.feed.name = st.leaf) (kind : IntentKind) :
    serveMetadata calmEnv (fr.request (stageIntent kind coord)) (st.store n) =
      (st.store (n + 4), .ok (st.result .here)) := by
  have hhosted : hostedDocument calmEnv (fr.request (stageIntent kind coord))
      (metaKey calmEnv fr.feed (stageIntent kind coord)) false (st.store (n + 2)) =
        (st.store (n + 4), .ok (st.result .here)) := by
    unfold hostedDocument ReadFeed.request
    dsimp only
    rw [hname]
    refine (bind_of_ok (attempt_run (st.loadManifest_leaf (n + 2)))).trans ?_
    exact st.openBlob_run .here (n + 3)
  have hbody : serveMetadataBody calmEnv (fr.request (stageIntent kind coord)) (st.store n) =
      (st.store (n + 4), .ok (st.result .here)) := by
    refine (bind_of_ok (attempt_run (st.getDocument_run _ n))).trans ?_
    refine bind_tick.trans ?_
    dsimp only [ReadFeed.request]
    rw [hup]
    exact hhosted
  refine (bind_of_ok hbody).trans ?_
  rfl

theorem serve_leaf (hname : fr.feed.name = st.leaf) (hkind : kind ≠ .synthetic) :
    ∃ n' source, serve calmEnv (fr.request (stageIntent kind coord)) (st.store n) =
      (st.store n', .ok (st.result source)) := by
  rcases @serve_cases calmEnv (fr.request (stageIntent kind coord)) pkg_valid hkind with
    ⟨nested, hserve⟩ | hserve
  · rw [hserve]
    refine ⟨n + 2, .cache, ?_⟩
    unfold serveArtifact ReadFeed.request
    dsimp only
    rw [hname]
    refine (bind_of_ok (attempt_run (st.loadManifest_leaf n))).trans ?_
    refine (bind_of_ok (attempt_run (st.openBlob_run .cache (n + 1)))).trans ?_
    rfl
  · rw [hserve]
    exact ⟨n + 4, .here, st.serveMetadata_leaf fr hup coord n hname _⟩

theorem serve_other (hname : fr.feed.name ≠ st.leaf) (hkind : kind ≠ .synthetic) :
    ∃ n' error, serve calmEnv (fr.request (stageIntent kind coord)) (st.store n) =
      (st.store n', .error error) := by
  have hmetadata (kind : IntentKind) :
      serveMetadata calmEnv (fr.request (stageIntent kind coord)) (st.store n) =
        (st.store (n + 3),
          .error (.wrapping .notFound ("metadata " ++ coord.text ++ " not hosted here"))) := by
    apply bind_of_error
    refine (bind_of_ok (attempt_run (st.getDocument_run _ n))).trans ?_
    refine bind_tick.trans ?_
    dsimp only [ReadFeed.request]
    rw [hup]
    refine (bind_of_ok (attempt_run (st.loadManifest_other hname (n + 2)))).trans ?_
    rfl
  rcases @serve_cases calmEnv (fr.request (stageIntent kind coord)) pkg_valid hkind with
    ⟨nested, hserve⟩ | hserve
  · rw [hserve]
    refine ⟨n + 1, .wrapping .notFound ("artifact " ++ coord.text ++ " not hosted here"), ?_⟩
    refine (bind_of_ok (attempt_run (st.loadManifest_other hname n))).trans ?_
    dsimp only [ReadFeed.request]
    rw [hup]
    cases fr.peerFallback <;> rfl
  · rw [hserve]
    exact ⟨n + 3, _, hmetadata _⟩

end Serving

section Asking

variable (engine : Engine) (id : Identity) {kind : IntentKind} (hkind : kind ≠ .synthetic)
  (chain : Chain) (n : Nat)
include hkind

theorem artifactMetadata_leaf (hmetadata : kind = .artifact ∨ st.shown.metadata = []) :
    ∃ n', artifactMetadata (stageServer engine) (st.member kind chain st.leaf)
      (stageIntent kind st.shown.coord) (st.store n) = (st.store n', .ok st.shown.metadata) := by
  by_cases hartifact : kind = .artifact
  · subst hartifact
    obtain ⟨n', source, hserve⟩ := st.serve_leaf (st.member .artifact chain st.leaf) rfl
      st.shown.coord n rfl (show IntentKind.metadata ≠ .synthetic from nofun)
    exact ⟨n', (bind_of_ok (attempt_run hserve)).trans rfl⟩
  · refine ⟨n, ?_⟩
    unfold artifactMetadata
    rw [if_pos (.inl hartifact), hmetadata.resolve_left hartifact]
    rfl

theorem askMember_leaf (hcached : st.leaf ∈ st.cached)
    (hmetadata : kind = .artifact ∨ st.shown.metadata = [])
    (haccess : (mayServe engine id st.leaf (stageIntent kind st.shown.coord)).allowed = true)
    (hresolve : (chain.onResolve id st.shown.coord).allow = true)
    (hserve : (chain.onServe id st.shown).allow = true) :
    ∃ n' source, askMember (stageServer engine) (st.member kind chain st.leaf) id
      (stageIntent kind st.shown.coord) (st.store n) =
        (st.store n', .ok (.answered (st.result source) st.shown)) := by
  obtain ⟨n₁, source, hanswer⟩ := st.serve_leaf (st.member kind chain st.leaf) rfl st.shown.coord
    (n + 1) rfl hkind
  obtain ⟨n₂, hdescribed⟩ := st.artifactMetadata_leaf engine hkind chain n₁ hmetadata
  have hfrom : answerFromMember (stageServer engine) (st.member kind chain st.leaf)
      (stageIntent kind st.shown.coord) (st.store (n + 1)) =
        (st.store n₁, .ok (st.result source)) := by
    unfold answerFromMember
    rw [if_neg (by simp [member])]
    exact hanswer
  refine ⟨n₂, source, ?_⟩
  unfold askMember
  rw [if_neg (by simp [stageServer, member, haccess])]
  refine (bind_of_ok (st.blocked_cached engine hcached n)).trans ?_
  dsimp only
  rw [if_neg Bool.false_ne_true, if_neg (by simp [member, stageIntent, hresolve])]
  refine (bind_of_ok (attempt_run hfrom)).trans ?_
  refine (bind_of_ok hdescribed).trans ?_
  show (if (chain.onServe id st.shown).allow = true then _ else _ : Reading MemberResult)
    (st.store n₂) = _
  rw [if_pos hserve]
  rfl

theorem askMember_other (hname : name ≠ st.leaf) (hcached : name ∈ st.cached) :
    ∃ n' outcome, askMember (stageServer engine) (st.member kind chain name) id
      (stageIntent kind st.shown.coord) (st.store n) = (st.store n', .ok outcome) ∧
        ∀ result shown, outcome ≠ .answered result shown := by
  obtain ⟨n₁, error, hanswer⟩ := st.serve_other (st.member kind chain name) rfl st.shown.coord
    (n + 1) hname hkind
  have hfrom : answerFromMember (stageServer engine) (st.member kind chain name)
      (stageIntent kind st.shown.coord) (st.store (n + 1)) = (st.store n₁, .error error) := by
    unfold answerFromMember
    rw [if_neg (by simp [member])]
    exact hanswer
  have hblocked : blocked (stageServer engine) (st.member kind chain name).feed.name
      (stageIntent kind st.shown.coord).coord.text (st.store n) =
        (st.store (n + 1), .ok (false, "")) :=
    st.blocked_cached engine hcached n
  unfold askMember
  split
  · exact ⟨n, _, rfl, nofun⟩
  · rw [bind_of_ok hblocked]
    dsimp only
    rw [if_neg Bool.false_ne_true]
    split
    · exact ⟨n + 1, _, rfl, nofun⟩
    · rw [bind_of_ok (attempt_run hfrom)]
      exact ⟨n₁, _, rfl, nofun⟩

theorem findFirst_leaf (chains : String → Chain) {names : List String} (hmem : st.leaf ∈ names)
    (hcached : ∀ name ∈ names, name ∈ st.cached)
    (hmetadata : kind = .artifact ∨ st.shown.metadata = [])
    (haccess : (mayServe engine id st.leaf (stageIntent kind st.shown.coord)).allowed = true)
    (hresolve : ((chains st.leaf).onResolve id st.shown.coord).allow = true)
    (hserve : ((chains st.leaf).onServe id st.shown).allow = true) (refused : Refused) :
    ∃ n' source, findFirst (stageServer engine) id (stageIntent kind st.shown.coord)
        (names.map fun name => st.member kind (chains name) name) refused (st.store n) =
      (st.store n',
        .ok (.ok ⟨st.member kind (chains st.leaf) st.leaf, st.result source, st.shown⟩)) := by
  induction names generalizing n refused with
  | nil => cases hmem
  | cons name rest ih =>
    by_cases hname : name = st.leaf
    · subst hname
      obtain ⟨n', source, hasked⟩ := st.askMember_leaf engine id hkind (chains st.leaf) n
        (hcached _ List.mem_cons_self) hmetadata haccess hresolve hserve
      exact ⟨n', source, bind_of_ok hasked⟩
    · obtain ⟨n₁, outcome, hasked, hsilent⟩ := st.askMember_other engine id hkind
        (chains name) n hname
        (hcached _ List.mem_cons_self)
      have hrest : st.leaf ∈ rest := (List.mem_cons.mp hmem).resolve_left (Ne.symm hname)
      obtain ⟨n', source, hfound⟩ :=
        ih n₁ hrest (fun other hother => hcached other (.tail _ hother))
        (refused.note name outcome)
      refine ⟨n', source, (bind_of_ok hasked).trans ?_⟩
      cases outcome with
      | answered result shown => exact absurd rfl (hsilent result shown)
      | blocked reason | missing error => exact hfound

end Asking

def group (kind : IntentKind) (chain : Chain) (name : String) (members : List ReadFeed) :
    ReadGroup where
  feed := { name := name, format := "raw" }
  module := st.module kind
  chain := chain
  members := members

/-- A group that lets the request in answers it with the artifact of the leaf feed. -/
theorem group_sends (engine : Engine) (id : Identity) (hkind : kind ≠ .synthetic)
    (chains : String → Chain) {names : List String} (hname : name ∈ st.cached)
    (hmem : st.leaf ∈ names) (hcached : ∀ name ∈ names, name ∈ st.cached)
    (hmetadata : kind = .artifact ∨ st.shown.metadata = [])
    (hgroup : (mayServe engine id name (stageIntent kind st.shown.coord)).allowed = true)
    (hpasses : ((chains name).onResolve id st.shown.coord).allow = true)
    (haccess : (mayServe engine id st.leaf (stageIntent kind st.shown.coord)).allowed = true)
    (hresolve : ((chains st.leaf).onResolve id st.shown.coord).allow = true)
    (hserve : ((chains st.leaf).onServe id st.shown).allow = true) (req : ReadRequest) :
    ∃ source s', Sends (stageServer engine)
      (st.group kind (chains name) name (names.map fun name => st.member kind (chains name) name))
      id req (st.store 0) (stageIntent kind st.shown.coord)
      ⟨st.member kind (chains st.leaf) st.leaf, st.result source, st.shown⟩ s' := by
  have hentered : admitGroup (stageServer engine)
      (st.group kind (chains name) name (names.map fun name => st.member kind (chains name) name))
      id req (st.store 0) = (st.store 1, .ok (.ok (stageIntent kind st.shown.coord))) :=
    admitGroup_run rfl hgroup (st.blocked_cached engine hname 0) hpasses
  obtain ⟨n', source, hfound⟩ := st.findFirst_leaf engine id hkind 1 chains hmem hcached hmetadata
    haccess hresolve hserve {}
  refine ⟨source, st.store n', hkind, rfl, ?_, ?_⟩
  · rw [hentered]
  · rw [hentered]
    exact hfound

end Stage

end FondacoFormal.Server
