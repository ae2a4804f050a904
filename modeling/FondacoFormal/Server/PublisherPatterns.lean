import FondacoFormal.Access.Compiled
import FondacoFormal.Auth.Publishers
import FondacoFormal.Server.Publish
import Mathlib.Algebra.Order.BigOperators.Group.List

/-!
# Publisher patterns in the compiled engine

A feed's `publishers` are read twice: by `Publishers.Allowed` with `path.Match` over the texts
of an identity, and by the bindings `matchFromPattern` compiles them to.
-/

namespace FondacoFormal.Server

open Library Auth Access

/-! ## What a compiled pattern selects -/

def sampleOf (pattern : String) : String :=
  String.ofList (cutStar pattern.toList).1

theorem meets_sampleOf (pattern : String) : meets pattern (sampleOf pattern) = true := by
  unfold meets glob sampleOf cutStar
  by_cases hstar : pattern.toList.getLast? = some '*'
  · simp [hstar]
  · simp [hstar]

def Open (pattern : String) : Prop :=
  pattern = "" ∨ pattern.toList.getLast? = some '*'
  deriving Decidable

variable {pattern : String}

theorem meets_iff_of_not_open (hclosed : ¬ Open pattern) (value : String) :
    meets pattern value = true ↔ value = pattern := by
  simp only [Open, not_or] at hclosed
  unfold meets glob cutStar
  simp [hclosed.1, hclosed.2, eq_comm]

theorem meets_of_open (hopen : Open pattern) (more : String) :
    meets pattern (sampleOf pattern ++ more) = true := by
  unfold meets glob sampleOf cutStar
  rcases hopen with rfl | hstar
  · rfl
  · simp [hstar]

theorem cutColon_own (kind : IdentityKind) (rest : String) :
    cutColon (kind.text ++ ":" ++ rest) = some (kind.text, rest) :=
  cutColon_append (by cases kind <;> decide) rest

theorem cutColon_project (rest : String) :
    cutColon ("project:" ++ rest) = some ("project", rest) :=
  cutColon_append (show ':' ∉ "project".toList by decide) rest

theorem own_ne_project (kind : IdentityKind) (rest project : String) :
    kind.text ++ ":" ++ rest ≠ "project:" ++ project := by
  intro heq
  have hcut := cutColon_project project
  rw [← heq, cutColon_own] at hcut
  exact absurd (Prod.mk.inj (Option.some.inj hcut)).1 (by cases kind <;> decide)

theorem ne_star_of_cutColon {cut : String × String} (hcut : cutColon pattern = some cut) :
    pattern ≠ "*" := by
  rintro rfl
  rw [show cutColon "*" = none by decide] at hcut
  cases hcut

theorem selects_star (id : Identity) :
    (matchFromPattern "*").selects (accessIdentity id) = true ↔ id.kind ≠ .anonymous := by
  cases hkind : id.kind <;>
    simp [matchFromPattern, Match.selects, accessIdentity, AccessIdentity.isAnonymous, meets,
      hkind, IdentityKind.text]

variable {kind : IdentityKind}

/-- A pattern with a kind before its colon selects the identities of that kind by their subject. -/
theorem selects_own (hkind : kind ≠ .anonymous) (rest : String) (id : Identity) :
    (matchFromPattern (kind.text ++ ":" ++ rest)).selects (accessIdentity id) = true ↔
      id.kind = kind ∧ meets rest id.subject = true := by
  have hstar := ne_star_of_cutColon (cutColon_own kind rest)
  have hclosed : ¬ Open kind.text := by cases kind <;> decide
  have htext : id.kind.text = kind.text ↔ id.kind = kind := by
    cases id.kind <;> cases kind <;> decide
  have htoken : kind.text = "token" ∨ kind.text = "oidc" := by
    cases kind with
    | anonymous => exact absurd rfl hkind
    | token => exact .inl rfl
    | oidc => exact .inr rfl
  unfold matchFromPattern
  rw [if_neg hstar, cutColon_own]
  dsimp only
  rw [if_pos htoken]
  simp [Match.selects, accessIdentity, meets_iff_of_not_open hclosed, htext,
    show ∀ value, meets "" value = true from fun _ => rfl]

theorem selects_project (rest : String) (id : Identity) :
    (matchFromPattern ("project:" ++ rest)).selects (accessIdentity id) = true ↔
      id.kind = .oidc ∧ meets (cutAtSign rest).1 id.projectPath = true ∧
        meets (cutAtSign rest).2 id.ref = true := by
  have hstar := ne_star_of_cutColon (cutColon_project rest)
  have htext : id.kind.text = "oidc" ↔ id.kind = .oidc := by
    cases id.kind <;> decide
  unfold matchFromPattern
  rw [if_neg hstar, cutColon_project]
  simp [Match.selects, accessIdentity, meets_iff_of_not_open (show ¬ Open "oidc" by decide), htext,
    show ∀ value, meets "" value = true from fun _ => rfl, and_assoc]

theorem not_selects_unknown (hstar : pattern ≠ "*")
    (hown : ∀ kind rest, kind ≠ IdentityKind.anonymous → pattern ≠ kind.text ++ ":" ++ rest)
    (hproject : ∀ rest, pattern ≠ "project:" ++ rest) (id : Identity) :
    (matchFromPattern pattern).selects (accessIdentity id) = false := by
  have hnone : matchFromPattern pattern = { kind := "none" } := by
    unfold matchFromPattern
    rw [if_neg hstar]
    cases hcut : cutColon pattern with
    | none => rfl
    | some cut =>
      obtain ⟨kind, rest⟩ := cut
      have hpattern := cutColon_eq_some hcut
      dsimp only
      split
      · rename_i hknown
        rcases hknown with rfl | rfl
        · exact absurd hpattern (hown .token rest (by decide))
        · exact absurd hpattern (hown .oidc rest (by decide))
      · split
        · rename_i hkind
          subst hkind
          exact absurd hpattern (hproject rest)
        · rfl
  have hkind : meets "none" id.kind.text = false := by cases id.kind <;> decide
  simp [hnone, Match.selects, accessIdentity, hkind]

/-- A pattern other than the star selects by its kind, or by the project of an OIDC identity. -/
theorem selects_cases (hstar : pattern ≠ "*") {id : Identity}
    (hselects : (matchFromPattern pattern).selects (accessIdentity id) = true) :
    id.kind ≠ .anonymous ∧
      ((∃ rest, pattern = id.kind.text ++ ":" ++ rest ∧ meets rest id.subject = true) ∨
        ∃ rest, pattern = "project:" ++ rest) := by
  by_cases hproject : ∃ rest, pattern = "project:" ++ rest
  · obtain ⟨rest, rfl⟩ := hproject
    have hoidc := ((selects_project rest id).mp hselects).1
    exact ⟨by rw [hoidc]; decide, .inr ⟨rest, rfl⟩⟩
  · by_cases hown : ∃ kind rest, kind ≠ IdentityKind.anonymous ∧ pattern = kind.text ++ ":" ++ rest
    · obtain ⟨kind, rest, hkind, rfl⟩ := hown
      obtain ⟨rfl, hmeets⟩ := (selects_own hkind rest id).mp hselects
      exact ⟨hkind, .inl ⟨rest, rfl, hmeets⟩⟩
    · simp only [not_exists, not_and] at hproject hown
      rw [not_selects_unknown hstar hown hproject] at hselects
      cases hselects

/-! ## The lists both readings agree on -/

/--
Without the star the two readings agree when no pattern is open or names a
project, and `path.Match` finds nothing beyond the texts that are listed.
-/
structure ReadsAlike (patterns : List String) : Prop where
  bounded : ∀ kind rest, kind ≠ IdentityKind.anonymous →
    kind.text ++ ":" ++ rest ∈ patterns → ¬ Open rest
  noProject : ∀ rest, "project:" ++ rest ∉ patterns
  noProjectText : ∀ pattern ∈ patterns, ∀ project ≠ "",
    ¬ Glob.Matches pattern ("project:" ++ project)
  literal : ∀ kind subject, kind ≠ IdentityKind.anonymous →
    ((∃ pattern ∈ patterns, Glob.Matches pattern (kind.text ++ ":" ++ subject)) ↔
      kind.text ++ ":" ++ subject ∈ patterns)

def SelectedBy (patterns : List String) (id : Identity) : Prop :=
  ∃ pattern ∈ patterns, (matchFromPattern pattern).selects (accessIdentity id) = true

variable {patterns : List String}

theorem selectedBy_iff_mem (hstar : "*" ∉ patterns)
    (hbounded : ∀ kind rest, kind ≠ IdentityKind.anonymous →
      kind.text ++ ":" ++ rest ∈ patterns → ¬ Open rest)
    (hproject : ∀ rest, "project:" ++ rest ∉ patterns) (id : Identity) :
    SelectedBy patterns id ↔
      id.kind ≠ .anonymous ∧ id.kind.text ++ ":" ++ id.subject ∈ patterns := by
  constructor
  · rintro ⟨pattern, hpattern, hselects⟩
    have hne : pattern ≠ "*" := fun hsame => hstar (hsame ▸ hpattern)
    obtain ⟨hkind, ⟨rest, rfl, hmeets⟩ | ⟨rest, rfl⟩⟩ := selects_cases hne hselects
    · rw [(meets_iff_of_not_open (hbounded _ rest hkind hpattern) _).mp hmeets]
      exact ⟨hkind, hpattern⟩
    · exact absurd hpattern (hproject rest)
  · rintro ⟨hkind, hmem⟩
    have hmeets := (meets_iff_of_not_open (hbounded _ _ hkind hmem) id.subject).mpr rfl
    exact ⟨_, hmem, (selects_own hkind id.subject id).mpr ⟨rfl, hmeets⟩⟩

theorem selectedBy_iff_of_star (hstar : "*" ∈ patterns) (id : Identity) :
    SelectedBy patterns id ↔ id.kind ≠ .anonymous := by
  constructor
  · rintro ⟨pattern, -, hselects⟩
    by_cases hpattern : pattern = "*"
    · subst hpattern
      exact (selects_star id).mp hselects
    · exact (selects_cases hpattern hselects).1
  · intro hkind
    exact ⟨"*", hstar, (selects_star id).mpr hkind⟩

theorem publishersAllowed_of_star (hstar : "*" ∈ patterns) (id : Identity) :
    publishersAllowed patterns id = true ↔ id.kind ≠ .anonymous := by
  rw [publishersAllowed_iff]
  exact ⟨And.left, fun hkind =>
    ⟨hkind, _, own_mem_identitySubjects id, "*", hstar, .inl rfl⟩⟩

/-- Without the star a caller publishes when a pattern matches one of their texts. -/
theorem publishersAllowed_iff_matches (hstar : "*" ∉ patterns) (id : Identity) :
    publishersAllowed patterns id = true ↔ id.kind ≠ .anonymous ∧
      ∃ subject ∈ identitySubjects id, ∃ pattern ∈ patterns, Glob.Matches pattern subject := by
  rw [publishersAllowed_iff]
  refine and_congr_right fun _ => exists_congr fun subject => and_congr_right fun _ =>
    exists_congr fun pattern => and_congr_right fun hpattern => ?_
  exact or_iff_right fun hsame => hstar (hsame ▸ hpattern)

theorem identitySubjects_of_no_project {id : Identity} (hproject : id.projectPath = "") :
    identitySubjects id = [id.kind.text ++ ":" ++ id.subject] := by
  simp [identitySubjects, hproject]

theorem ReadsAlike.agree (halike : ReadsAlike patterns) (hstar : "*" ∉ patterns) (id : Identity) :
    SelectedBy patterns id ↔ publishersAllowed patterns id = true := by
  rw [selectedBy_iff_mem hstar halike.bounded halike.noProject,
    publishersAllowed_iff_matches hstar]
  refine and_congr_right fun hkind => ?_
  rw [← halike.literal id.kind id.subject hkind]
  constructor
  · intro hmatches
    exact ⟨_, own_mem_identitySubjects id, hmatches⟩
  · rintro ⟨subject, hsubject, pattern, hpattern, hmatches⟩
    rcases mem_identitySubjects hsubject with rfl | ⟨project, hproject, rfl⟩
    · exact ⟨pattern, hpattern, hmatches⟩
    · exact absurd hmatches (halike.noProjectText pattern hpattern project hproject)

theorem readsAlike_of_plain (hplain : ∀ pattern ∈ patterns, Glob.Plain pattern ∧ ∃ kind rest,
      kind ≠ IdentityKind.anonymous ∧ rest ≠ "" ∧ pattern = kind.text ++ ":" ++ rest) :
    ReadsAlike patterns where
  bounded kind rest _ hmem := by
    obtain ⟨hchars, kind', rest', -, hrest, hsame⟩ := hplain _ hmem
    have hcut := cutColon_own kind rest
    rw [hsame, cutColon_own] at hcut
    obtain ⟨-, rfl⟩ := Prod.mk.inj (Option.some.inj hcut)
    rintro (hempty | hlast)
    · exact hrest hempty
    · have hstar : '*' ∈ (kind.text ++ ":" ++ rest').toList := by
        rw [String.toList_append]
        exact List.mem_append_right _ (List.mem_of_getLast? hlast)
      exact hchars '*' hstar (by decide)
  noProject rest hmem := by
    obtain ⟨-, kind, rest', -, -, hsame⟩ := hplain _ hmem
    exact own_ne_project kind rest' rest hsame.symm
  noProjectText pattern hmem project _ hmatches := by
    obtain ⟨hchars, kind, rest, -, -, hpattern⟩ := hplain pattern hmem
    have hsame := (Glob.matches_iff_of_plain hchars _).mp hmatches
    exact own_ne_project kind rest project (hpattern.symm.trans hsame.symm)
  literal kind subject _ := by
    constructor
    · rintro ⟨pattern, hpattern, hmatches⟩
      rwa [(Glob.matches_iff_of_plain (hplain pattern hpattern).1 _).mp hmatches]
    · intro hmem
      exact ⟨_, hmem, (Glob.matches_iff_of_plain (hplain _ hmem).1 _).mpr rfl⟩

/-! ## Subjects no pattern of a list reaches -/

def slashes (patterns : List String) : String :=
  String.ofList (List.replicate (patterns.map String.length).sum.succ '/')

theorem length_lt_slashes (hpattern : pattern ∈ patterns) :
    pattern.length < (slashes patterns).length := by
  have hle := List.le_sum_of_mem (List.mem_map_of_mem (f := String.length) hpattern)
  simp only [slashes, String.length_ofList, List.length_replicate]
  omega

/-- `path.Match` finds no text that ends in all those slashes. -/
theorem not_matches_slashes (hpattern : pattern ∈ patterns) (stem : String) :
    ¬ Glob.Matches pattern (stem ++ slashes patterns) := by
  apply Glob.not_matches_of_count
  have hlength := length_lt_slashes hpattern
  simp only [slashes, String.length_ofList, List.length_replicate] at hlength
  simp only [slashes, String.toList_append, List.count_append, String.toList_ofList,
    List.count_replicate_self]
  omega

section

variable {patterns : List String} (hstar : "*" ∉ patterns)
  (hagree : ∀ id, SelectedBy patterns id ↔ publishersAllowed patterns id = true)

include hstar hagree

/-- An open pattern selects subjects that `path.Match` does not find. -/
theorem bounded_of_agree {rest : String} (hkind : kind ≠ .anonymous)
    (hmem : kind.text ++ ":" ++ rest ∈ patterns) : ¬ Open rest := by
  intro hopen
  let id : Identity := { kind := kind, subject := sampleOf rest ++ slashes patterns }
  have hselected : SelectedBy patterns id :=
    ⟨_, hmem, (selects_own hkind rest id).mpr ⟨rfl, meets_of_open hopen _⟩⟩
  obtain ⟨-, subject, hsubject, pattern, hpattern, hmatches⟩ :=
    (publishersAllowed_iff_matches hstar id).mp ((hagree id).mp hselected)
  rw [identitySubjects_of_no_project rfl, List.mem_singleton] at hsubject
  rw [hsubject, ← String.append_assoc] at hmatches
  exact not_matches_slashes hpattern _ hmatches

/-- A token with a project is found by the project's text, and never selected by it. -/
theorem noProjectText_of_agree {project : String} (hpattern : pattern ∈ patterns)
    (hproject : project ≠ "") : ¬ Glob.Matches pattern ("project:" ++ project) := by
  intro hmatches
  let id : Identity :=
    { kind := .token, subject := slashes patterns, projectPath := project }
  have hnamed : id.projectPath ≠ "" := hproject
  have hallowed : publishersAllowed patterns id = true :=
    (publishersAllowed_iff_matches hstar id).mpr ⟨nofun, _,
      project_mem_identitySubjects hnamed, pattern, hpattern, hmatches⟩
  obtain ⟨chosen, hchosen, hselects⟩ := (hagree id).mpr hallowed
  have hne : chosen ≠ "*" := fun hsame => hstar (hsame ▸ hchosen)
  obtain ⟨hkind, ⟨rest, rfl, hmeets⟩ | ⟨rest, rfl⟩⟩ := selects_cases hne hselects
  · have hsame := (meets_iff_of_not_open (bounded_of_agree hstar hagree hkind hchosen) _).mp hmeets
    have hlength := length_lt_slashes hchosen
    rw [← hsame] at hlength
    simp only [String.length_append, id] at hlength
    omega
  · exact absurd ((selects_project rest id).mp hselects).1 nofun

/-- A project pattern selects a job that `path.Match` finds by a project's text only. -/
theorem noProject_of_agree (rest : String) : "project:" ++ rest ∉ patterns := by
  intro hmem
  let id : Identity :=
    { kind := .oidc, subject := slashes patterns
      projectPath := sampleOf (cutAtSign rest).1, ref := sampleOf (cutAtSign rest).2 }
  have hselected : SelectedBy patterns id :=
    ⟨_, hmem, (selects_project rest id).mpr ⟨rfl, meets_sampleOf _, meets_sampleOf _⟩⟩
  obtain ⟨-, subject, hsubject, pattern, hpattern, hmatches⟩ :=
    (publishersAllowed_iff_matches hstar id).mp ((hagree id).mp hselected)
  rcases mem_identitySubjects hsubject with rfl | ⟨project, hproject, rfl⟩
  · exact not_matches_slashes hpattern _ hmatches
  · exact noProjectText_of_agree hstar hagree hpattern hproject hmatches

theorem readsAlike_of_agree : ReadsAlike patterns where
  bounded _ _ hkind hmem := bounded_of_agree hstar hagree hkind hmem
  noProject := noProject_of_agree hstar hagree
  noProjectText _ hpattern _ hproject := noProjectText_of_agree hstar hagree hpattern hproject
  literal kind subject hkind := by
    let id : Identity := { kind := kind, subject := subject }
    have hselected := selectedBy_iff_mem hstar
      (fun _ _ hkind hmem => bounded_of_agree hstar hagree hkind hmem)
      (noProject_of_agree hstar hagree) id
    rw [hagree id, publishersAllowed_iff_matches hstar, identitySubjects_of_no_project rfl]
      at hselected
    simpa [id, hkind] using hselected

end

/-! ## The compiled engine -/

/--
In a configuration with nothing but the older fields, a feed's engine rights to
publish are what its publishers say exactly when the list has the star or reads
alike both ways.
-/
theorem publisher_patterns_exact_iff {c : Config} {e : Engine} (hlegacy : Legacy c e)
    {f : FeedConfig} (hf : f ∈ c.feeds) :
    (∀ (coordinate : String) (id : Identity),
      e.allowed (accessIdentity id) (feedPath f.name coordinate) .publish = true ↔
        publishersAllowed f.publishers id = true) ↔
      "*" ∈ f.publishers ∨ ReadsAlike f.publishers := by
  have hengine : ∀ coordinate id,
      e.allowed (accessIdentity id) (feedPath f.name coordinate) .publish = true ↔
        SelectedBy f.publishers id :=
    fun coordinate id => hlegacy.allowed_iff_selects hf (accessIdentity id) coordinate
  constructor
  · intro hexact
    by_cases hstar : "*" ∈ f.publishers
    · exact .inl hstar
    · exact .inr (readsAlike_of_agree hstar fun id => (hengine "" id).symm.trans (hexact "" id))
  · intro hlist coordinate id
    rw [hengine]
    by_cases hstar : "*" ∈ f.publishers
    · rw [selectedBy_iff_of_star hstar, publishersAllowed_of_star hstar]
    · exact (hlist.resolve_left hstar).agree hstar id

def oneFeed (publishers : List String) : Config where
  feeds := [{ name := "hub", publishers := publishers }]

def oneFeedEngine (publishers : List String) : Engine :=
  (oneFeed publishers).accessEngine.toOption.getD ⟨[], []⟩

def nestedJob : Identity where
  kind := .oidc
  subject := "project_path:group/sub/app"
  projectPath := "group/sub/app"

theorem oneFeed_legacy_token : Legacy (oneFeed ["token:ci"]) (oneFeedEngine ["token:ci"]) where
  names := by decide
  distinct := by decide
  noPolicies := rfl
  noBindings := rfl
  compiles := by decide +kernel

theorem publisher_patterns_exact_token :
    Legacy (oneFeed ["token:ci"]) (oneFeedEngine ["token:ci"]) ∧
      ∀ (coordinate : String) (id : Identity),
        (oneFeedEngine ["token:ci"]).allowed (accessIdentity id) (feedPath "hub" coordinate)
          .publish = true ↔ publishersAllowed ["token:ci"] id = true := by
  refine ⟨oneFeed_legacy_token, ?_⟩
  refine (publisher_patterns_exact_iff oneFeed_legacy_token
    (f := { name := "hub", publishers := ["token:ci"] }) List.mem_cons_self).mpr (.inr ?_)
  apply readsAlike_of_plain
  simp only [List.mem_singleton, forall_eq]
  exact ⟨by decide, .token, "ci", by decide, by decide, rfl⟩

/-- The compiled star crosses slashes, so a nested project gains the right to publish. -/
theorem nested_project_publishes :
    ∃ e, Legacy (oneFeed ["project:group/*"]) e ∧
      publishersError 0 ["project:group/*"] = none ∧
      e.allowed (accessIdentity nestedJob) (feedPath "hub" "app") .publish = true ∧
      publishersAllowed ["project:group/*"] nestedJob = false := by
  refine ⟨oneFeedEngine ["project:group/*"], ⟨by decide, by decide, rfl, rfl, ?_⟩, ?_, ?_, ?_⟩ <;>
    decide +kernel

end FondacoFormal.Server
