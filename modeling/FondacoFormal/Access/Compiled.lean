import FondacoFormal.Access.Config
import Mathlib.Data.List.Nodup

/-!
# What compiled publisher patterns grant

In an engine compiled from the older fields alone, the rules that match a path of a feed are
the two of the feed, equally specific.
-/

namespace FondacoFormal.Access

/-! ## What `New` compiles -/

def Compiles (p : PolicySpec) (q : Policy) : Prop :=
  q.name = p.name ∧ compileRules p.name 0 p.rules = .ok q.rules

variable {specs : List PolicySpec}

theorem compilePolicies_ok {done out : List Policy} (hok : compilePolicies done specs = .ok out)
    (hdone : (done.map Policy.name).Nodup) :
    (out.map Policy.name).Nodup ∧ ∃ new, out = done ++ new ∧ List.Forall₂ Compiles specs new := by
  induction specs generalizing done with
  | nil =>
    cases hok
    exact ⟨hdone, [], (List.append_nil _).symm, .nil⟩
  | cons p rest ih =>
    unfold compilePolicies at hok
    split at hok
    · cases hok
    · split at hok
      · cases hok
      · rename_i hfresh
        split at hok
        · cases hok
        · rename_i rules hrules
          have hnodup : ((done ++ [(⟨p.name, rules⟩ : Policy)]).map Policy.name).Nodup := by
            rw [List.map_append, List.nodup_append]
            refine ⟨hdone, List.nodup_singleton _, ?_⟩
            intro a ha b hb heq
            obtain ⟨q, hq, rfl⟩ := List.mem_map.mp ha
            rw [List.map_singleton, List.mem_singleton] at hb
            exact hfresh (List.any_eq_true.mpr ⟨q, hq, by simpa using heq.trans hb⟩)
          obtain ⟨hout, new, rfl, hnew⟩ := ih hok hnodup
          exact ⟨hout, ⟨p.name, rules⟩ :: new, by simp, .cons ⟨rfl, hrules⟩ hnew⟩

variable {e : Engine}

theorem newEngine_ok {bindings : List Binding} (hok : newEngine specs bindings = .ok e) :
    e.bindings = bindings ∧ (e.policies.map Policy.name).Nodup ∧
      List.Forall₂ Compiles specs e.policies := by
  unfold newEngine at hok
  split at hok
  · cases hok
  · rename_i compiled hcompiled
    split at hok
    · cases hok
    · cases hok
      obtain ⟨hnodup, new, rfl, hnew⟩ := compilePolicies_ok hcompiled List.nodup_nil
      exact ⟨rfl, hnodup, hnew⟩

variable {rule : Rule}

/-- A compiled rule has the path and the capabilities of the rule it was compiled from. -/
def RuleCompiles (spec : RuleSpec) (rule : Rule) : Prop :=
  rule.path = spec.path ∧ parseCapabilities spec.capabilities = .ok rule.capabilities

theorem compileRules_ok {policy : String} {i : Nat} {specs : List RuleSpec} {rules : List Rule}
    (hok : compileRules policy i specs = .ok rules) : List.Forall₂ RuleCompiles specs rules := by
  induction specs generalizing i rules with
  | nil =>
    cases hok
    exact .nil
  | cons spec rest ih =>
    unfold compileRules at hok
    split at hok
    · cases hok
    · rename_i first hfirst
      split at hok
      · cases hok
      · rename_i more hmore
        cases hok
        refine .cons ?_ (ih hmore)
        unfold validRule at hfirst
        dsimp only at hfirst
        split_ifs at hfirst
        split at hfirst
        · rename_i capabilities hcapabilities
          cases hfirst
          exact ⟨rfl, hcapabilities⟩
        · cases hfirst

section Pairs

variable {α β : Type} {R : α → β → Prop} {source : List α} {target : List β}

variable (hpairs : List.Forall₂ R source target)

include hpairs

theorem forall₂_source {b : β} (hb : b ∈ target) : ∃ a ∈ source, R a b := by
  induction hpairs with
  | nil => cases hb
  | cons hfirst hrest ih =>
    rcases List.mem_cons.mp hb with rfl | hb
    · exact ⟨_, List.mem_cons_self, hfirst⟩
    · obtain ⟨a, ha, hpair⟩ := ih hb
      exact ⟨a, List.mem_cons_of_mem _ ha, hpair⟩

theorem forall₂_target {a : α} (ha : a ∈ source) : ∃ b ∈ target, R a b :=
  forall₂_source hpairs.flip ha

end Pairs

theorem rulesOf_eq (hnodup : (e.policies.map Policy.name).Nodup) {p : Policy}
    (hp : p ∈ e.policies) :
    e.rulesOf p.name = p.rules := by
  unfold Engine.rulesOf
  have hfind : (e.policies.find? fun q => q.name = p.name) = some p := by
    cases hcase : e.policies.find? fun q => q.name = p.name with
    | none => exact absurd (List.find?_eq_none.mp hcase p hp) (by simp)
    | some q =>
      have hname : q.name = p.name := by simpa using List.find?_some hcase
      rw [List.inj_on_of_nodup_map hnodup (List.mem_of_find?_eq_some hcase) hp hname]
  rw [hfind]

variable {name : String}

theorem mem_rulesOf (hrule : rule ∈ e.rulesOf name) :
    ∃ p ∈ e.policies, p.name = name ∧ rule ∈ p.rules := by
  unfold Engine.rulesOf at hrule
  split at hrule
  · rename_i p hfind
    exact ⟨p, List.mem_of_find?_eq_some hfind, by simpa using List.find?_some hfind, hrule⟩
  · cases hrule

/-! ## Paths of feeds -/

theorem validFeedName_chars (hname : validFeedName name = true) :
    '/' ∉ name.toList ∧ '+' ∉ name.toList := by
  unfold validFeedName at hname
  simp only [Bool.and_eq_true, List.all_eq_true] at hname
  exact ⟨fun hmem => absurd (hname.1.1 '/' hmem) (by decide),
    fun hmem => absurd (hname.1.1 '+' hmem) (by decide)⟩

theorem splitPath_cons {front : List Char} (hfront : '/' ∉ front) (back : List Char) :
    splitPath (front ++ '/' :: back) = front :: splitPath back := by
  unfold splitPath List.splitOn
  refine List.splitOnP_append_cons_of_forall_mem ?_ '/' (by decide) back
  intro c hc
  exact beq_false_of_ne fun heq => hfront (heq ▸ hc)

theorem splitPath_single {segment : List Char} (hsegment : '/' ∉ segment) :
    splitPath segment = [segment] := by
  unfold splitPath List.splitOn
  refine List.splitOnP_eq_singleton ?_
  intro c hc
  exact beq_false_of_ne fun heq => hsegment (heq ▸ hc)

variable {feed : String}

theorem splitPath_feedPath (hfeed : '/' ∉ feed.toList) (coordinate : String) :
    splitPath (feedPath feed coordinate).toList = "feed".toList :: feed.toList ::
      if coordinate = "" then [] else splitPath coordinate.toList := by
  have hroot : ("feed/" : String).toList = "feed".toList ++ ['/'] := by decide
  unfold feedPath
  split
  · rw [String.toList_append, hroot, List.append_assoc, List.singleton_append,
      splitPath_cons (by decide), splitPath_single hfeed]
  · rw [String.toList_append, String.toList_append, String.toList_append, hroot]
    simp only [List.append_assoc, List.cons_append, List.nil_append]
    rw [splitPath_cons (by decide), show ("/" : String).toList = ['/'] by decide,
      List.singleton_append, splitPath_cons hfeed]

def feedScore (feed : String) : Specificity where
  exact := false
  pluses := 0
  literal := byteLength "feed".toList + byteLength feed.toList
  segments := 2

theorem matchPath_feed {pattern : String} (hpattern : validFeedName pattern = true)
    (hfeed : validFeedName feed = true) (coordinate : String) :
    matchPath (feedPath pattern "*") (feedPath feed coordinate) =
      if feed = pattern then some (feedScore pattern) else none := by
  obtain ⟨hslash, hplus⟩ := validFeedName_chars hpattern
  have hpath : (feedPath pattern "*").toList =
      ("feed".toList ++ '/' :: (pattern.toList ++ ['/'])) ++ ['*'] := by
    simp [feedPath]
  have hstem : cutStar (feedPath pattern "*").toList =
      ("feed".toList ++ '/' :: (pattern.toList ++ ['/']), true) := by
    rw [hpath]
    unfold cutStar
    rw [List.getLast?_concat, if_pos rfl, List.dropLast_concat]
  have hsegments : splitPath ("feed".toList ++ '/' :: (pattern.toList ++ ['/'])) =
      ["feed".toList, pattern.toList, []] := by
    rw [splitPath_cons (by decide), splitPath_cons hslash, splitPath_single (by simp)]
  have hcount : ("feed".toList ++ '/' :: (pattern.toList ++ ['/'])).count '/' = 2 := by
    simp [List.count_eq_zero_of_not_mem hslash]
  have hnotPlus : pattern.toList ≠ ['+'] := by
    intro heq
    exact hplus (by simp [heq])
  unfold matchPath
  rw [hstem]
  dsimp only
  rw [hsegments, hcount, splitPath_feedPath (validFeedName_chars hfeed).1]
  rw [if_neg (by simp), if_neg (by simp)]
  generalize (if coordinate = "" then [] else splitPath coordinate.toList) = more
  by_cases hsame : feed = pattern
  · cases more <;> simp [matchSegments, hnotPlus, hsame, feedScore, byteLength]
  · simp [matchSegments, hnotPlus, hsame, String.toList_inj]

theorem matchPath_sys {area : String} (harea : area ∈ "sys/*" :: sysAreas)
    (hfeed : validFeedName feed = true) (coordinate : String) :
    matchPath area (feedPath feed coordinate) = none := by
  have hsegments : ∃ rest, splitPath (cutStar area.toList).1 = "sys".toList :: rest ∧
    rest ≠ [] := by
    simp only [sysAreas, List.mem_cons, List.not_mem_nil, or_false] at harea
    rcases harea with rfl | rfl | rfl | rfl | rfl | rfl | rfl | rfl <;>
      exact ⟨_, rfl, by decide⟩
  obtain ⟨rest, hrest, hne⟩ := hsegments
  unfold matchPath
  dsimp only
  rw [hrest, splitPath_feedPath (validFeedName_chars hfeed).1]
  generalize (if coordinate = "" then [] else splitPath coordinate.toList) = tail
  split
  · rfl
  · split
    · rfl
    · simp [matchSegments, hne]

/-! ## The engine of the older fields -/

theorem publishName_inj {a b : String} (heq : publishName a = publishName b) : a = b := by
  have hlist := congrArg String.toList heq
  unfold publishName at hlist
  simp only [String.toList_append] at hlist
  exact String.toList_inj.mp (List.append_cancel_left (List.append_cancel_right hlist))

theorem publishName_ne_readName (a b : String) : publishName a ≠ readName b := by
  intro heq
  have hlast := congrArg (fun s => s.toList.reverse.head?) heq
  simp [publishName, readName] at hlast

theorem publishName_ne_sys {a : String} (hname : name.toList.head? = some 's') :
    publishName a ≠ name := by
  intro heq
  have hfirst : (publishName a).toList.head? = some 'f' := by
    simp [publishName]
  rw [heq, hname] at hfirst
  exact absurd hfirst (by decide)

section

variable {c : Config} {e : Engine}

theorem mem_legacyPolicies {p : PolicySpec} :
    p ∈ c.legacyPolicies ↔
      (∃ f ∈ c.feeds, p = ⟨readName f.name, [⟨feedPath f.name "*", ["read", "list"]⟩]⟩) ∨
      (∃ f ∈ c.feeds, f.publishers ≠ [] ∧
        p = ⟨publishName f.name, [⟨feedPath f.name "*", ["publish"]⟩]⟩) ∨
      (c.admins ≠ [] ∧ p = adminPolicy) ∨ p = operationalPolicy := by
  unfold Config.legacyPolicies feedPolicies
  simp only [List.mem_append, List.mem_flatMap, List.mem_cons, List.not_mem_nil, or_false]
  constructor
  · rintro ((⟨f, hf, hread | hpublish⟩ | hadmin) | hoperational)
    · exact .inl ⟨f, hf, hread⟩
    · split at hpublish
      · cases hpublish
      · rename_i hne
        exact .inr (.inl ⟨f, hf, hne, List.mem_singleton.mp hpublish⟩)
    · split at hadmin
      · cases hadmin
      · rename_i hne
        exact .inr (.inr (.inl ⟨hne, List.mem_singleton.mp hadmin⟩))
    · exact .inr (.inr (.inr hoperational))
  · rintro (⟨f, hf, rfl⟩ | ⟨f, hf, hne, rfl⟩ | ⟨hne, rfl⟩ | rfl)
    · exact .inl (.inl ⟨f, hf, .inl rfl⟩)
    · exact .inl (.inl ⟨f, hf, .inr (by simp [hne])⟩)
    · exact .inl (.inr (by simp [hne]))
    · exact .inr rfl

theorem mem_legacyBindings {b : Binding} (hb : b ∈ c.legacyBindings)
    (hname : publishName feed ∈ b.policies) :
    ∃ f ∈ c.feeds, f.name = feed ∧ ∃ pattern ∈ f.publishers,
      b.condition = matchFromPattern pattern := by
  unfold Config.legacyBindings feedBindings at hb
  simp only [List.mem_append, List.mem_flatMap, List.mem_cons, List.mem_map, List.not_mem_nil,
    or_false] at hb
  rcases hb with (⟨f, hf, rfl | ⟨pattern, hpattern, rfl⟩⟩ | ⟨pattern, hpattern, rfl⟩) | rfl
  · exact absurd (List.mem_singleton.mp hname) (publishName_ne_readName feed f.name)
  · exact ⟨f, hf, (publishName_inj (List.mem_singleton.mp hname)).symm, pattern, hpattern, rfl⟩
  all_goals exact absurd (List.mem_singleton.mp hname) (publishName_ne_sys (by decide))

/-- The configuration has the older fields only, valid and distinct feed names, and compiles. -/
structure Legacy (c : Config) (e : Engine) : Prop where
  names : ∀ f ∈ c.feeds, validFeedName f.name = true
  distinct : (c.feeds.map FeedConfig.name).Nodup
  noPolicies : c.accessPolicies = []
  noBindings : c.bindings = []
  compiles : c.accessEngine = .ok e

namespace Legacy

variable (hlegacy : Legacy c e)
include hlegacy

theorem engine : e.bindings = c.legacyBindings ∧ (e.policies.map Policy.name).Nodup ∧
    List.Forall₂ Compiles c.legacyPolicies e.policies := by
  have hok := hlegacy.compiles
  unfold Config.accessEngine at hok
  rw [hlegacy.noPolicies, hlegacy.noBindings, List.append_nil, List.append_nil] at hok
  exact newEngine_ok hok

variable {f : FeedConfig}

variable (hf : f ∈ c.feeds)

include hf

theorem matching_rule {id : AccessIdentity} (hrule : rule ∈ e.rulesFor id) {coordinate : String}
    {score : Specificity} (hmatch : matchPath rule.path (feedPath f.name coordinate) = some score) :
    score = feedScore f.name ∧ (rule.capabilities = [.read, .list] ∨
      rule.capabilities = [.publish] ∧ publishName f.name ∈ e.policiesFor id) := by
  obtain ⟨-, -, hcompiles⟩ := hlegacy.engine
  have hname := hlegacy.names f hf
  obtain ⟨name, hbound, hrule⟩ := List.mem_flatMap.mp hrule
  obtain ⟨q, hq, rfl, hqrule⟩ := mem_rulesOf hrule
  obtain ⟨p, hp, hqname, hrules⟩ := forall₂_source hcompiles hq
  obtain ⟨spec, hspec, hpath, hcapabilities⟩ :=
    forall₂_source (compileRules_ok hrules) hqrule
  rw [hpath] at hmatch
  rcases mem_legacyPolicies.mp hp with
    ⟨g, hg, rfl⟩ | ⟨g, hg, -, rfl⟩ | ⟨-, rfl⟩ | rfl
  · obtain rfl := List.mem_singleton.mp hspec
    rw [matchPath_feed (hlegacy.names g hg) hname, Option.ite_none_right_eq_some] at hmatch
    obtain ⟨heq, ⟨⟩⟩ := hmatch
    rw [heq]
    exact ⟨rfl, .inl (Except.ok.inj hcapabilities).symm⟩
  · obtain rfl := List.mem_singleton.mp hspec
    rw [matchPath_feed (hlegacy.names g hg) hname, Option.ite_none_right_eq_some] at hmatch
    obtain ⟨heq, ⟨⟩⟩ := hmatch
    rw [hqname] at hbound
    rw [heq]
    exact ⟨rfl, .inr ⟨(Except.ok.inj hcapabilities).symm, hbound⟩⟩
  · obtain ⟨area, harea, rfl⟩ := List.mem_map.mp hspec
    rw [matchPath_sys harea hname] at hmatch
    cases hmatch
  · obtain ⟨area, harea, rfl⟩ := List.mem_map.mp hspec
    have hsys : ∀ area ∈ operationalAreas, area ∈ "sys/*" :: sysAreas := by decide
    rw [matchPath_sys (hsys area harea) hname] at hmatch
    cases hmatch

theorem publish_rule (hpublishers : f.publishers ≠ []) :
    ∃ rule ∈ e.rulesOf (publishName f.name), rule.path = feedPath f.name "*" ∧
      rule.capabilities = [.publish] := by
  obtain ⟨-, hnodup, hcompiles⟩ := hlegacy.engine
  obtain ⟨q, hq, hqname, hrules⟩ := forall₂_target hcompiles
    (mem_legacyPolicies.mpr (.inr (.inl ⟨f, hf, hpublishers, rfl⟩)))
  rw [← show q.name = publishName f.name from hqname, rulesOf_eq hnodup hq]
  obtain ⟨rule, hrule, hpath, hcapabilities⟩ :=
    forall₂_target (compileRules_ok hrules) List.mem_cons_self
  exact ⟨rule, hrule, hpath, (Except.ok.inj hcapabilities).symm⟩

/-- The publish policy of a feed is bound exactly when some pattern selects the identity. -/
theorem publishName_mem_policiesFor (id : AccessIdentity) :
    publishName f.name ∈ e.policiesFor id ↔
      ∃ pattern ∈ f.publishers, (matchFromPattern pattern).selects id = true := by
  rw [mem_policiesFor, hlegacy.engine.1]
  constructor
  · rintro ⟨b, hb, hselects, hname⟩
    obtain ⟨g, hg, hsame, pattern, hpattern, hcondition⟩ := mem_legacyBindings hb hname
    rw [List.inj_on_of_nodup_map hlegacy.distinct hg hf hsame] at hpattern
    exact ⟨pattern, hpattern, hcondition ▸ hselects⟩
  · rintro ⟨pattern, hpattern, hselects⟩
    refine ⟨{ policies := [publishName f.name], condition := matchFromPattern pattern }, ?_,
      hselects, List.mem_singleton_self _⟩
    unfold Config.legacyBindings feedBindings
    refine List.mem_append_left _ (List.mem_append_left _ (List.mem_flatMap.mpr ⟨f, hf, ?_⟩))
    exact List.mem_cons_of_mem _ (List.mem_map.mpr ⟨pattern, hpattern, rfl⟩)

/-- A publish is allowed exactly when the binding of some pattern selects the identity. -/
theorem allowed_iff_selects (id : AccessIdentity) (coordinate : String) :
    e.allowed id (feedPath f.name coordinate) .publish = true ↔
      ∃ pattern ∈ f.publishers, (matchFromPattern pattern).selects id = true := by
  rw [allowed_iff, ← hlegacy.publishName_mem_policiesFor hf]
  constructor
  · rintro ⟨⟨rule, ⟨hrule, score, hmatch, -⟩, hpublish⟩, -⟩
    rcases (hlegacy.matching_rule hf hrule hmatch).2 with hread | ⟨-, hbound⟩
    · rw [hread] at hpublish
      exact absurd hpublish (by decide)
    · exact hbound
  · intro hbound
    have hpublishers : f.publishers ≠ [] := by
      obtain ⟨pattern, hpattern, -⟩ := (hlegacy.publishName_mem_policiesFor hf id).mp hbound
      exact List.ne_nil_of_mem hpattern
    obtain ⟨rule, hrule, hpath, hcapabilities⟩ := hlegacy.publish_rule hf hpublishers
    have hmatch : matchPath rule.path (feedPath f.name coordinate) = some (feedScore f.name) := by
      rw [hpath, matchPath_feed (hlegacy.names f hf) (hlegacy.names f hf), if_pos rfl]
    have hmem : rule ∈ e.rulesFor id := List.mem_flatMap.mpr ⟨_, hbound, hrule⟩
    refine ⟨⟨rule, ⟨hmem, feedScore f.name, hmatch, ?_⟩, by simp [hcapabilities]⟩, ?_⟩
    · intro other hother otherScore hscore
      exact le_of_eq (hlegacy.matching_rule hf hother hscore).1
    · rintro other ⟨hother, otherScore, hscore, -⟩
      rcases (hlegacy.matching_rule hf hother hscore).2 with hread | ⟨hpublish, -⟩
      · simp [hread]
      · simp [hpublish]

end Legacy

end

end FondacoFormal.Access
