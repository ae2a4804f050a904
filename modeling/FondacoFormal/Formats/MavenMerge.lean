import FondacoFormal.Formats.Maven
import FondacoFormal.Library.Knockout

/-!
# Merging the metadata of a Maven group

One routine merges three kinds of documents.  It decodes each into the struct of an
artifact's versions, so what it keeps are versions; and it sorts them by a comparison
that orders some sets of versions in a circle.
-/

namespace FondacoFormal.Formats.Maven

open Library Library.Xml Api Server

/-! ## The comparison -/

theorem compareTexts_swap (x y : String) (p q : Bool) :
    (compareTexts x y p q).swap = compareTexts y x q p := by
  unfold compareTexts
  by_cases hxy : x = y
  · rw [if_pos hxy, if_pos hxy.symm]
    rfl
  · rw [if_neg hxy, if_neg (Ne.symm hxy)]
    by_cases hx : x = ""
    · have hy : y ≠ "" := fun hy => hxy (hx.trans hy.symm)
      rw [if_pos hx, if_neg hy, if_pos hx]
      cases q <;> rfl
    · rw [if_neg hx, if_neg hx]
      by_cases hy : y = ""
      · rw [if_pos hy, if_pos hy]
        cases p <;> rfl
      · rw [if_neg hy, if_neg hy]
        rcases lt_trichotomy x y with hlt | heq | hgt
        · rw [if_pos hlt, if_neg hlt.asymm]
          rfl
        · exact absurd heq hxy
        · rw [if_neg hgt.asymm, if_pos hgt]
          rfl

theorem compareSegments_swap (x y : String) :
    (compareSegments x y).swap = compareSegments y x := by
  unfold compareSegments
  rcases atoi x with _ | xn <;> rcases atoi y with _ | yn
  · exact compareTexts_swap x y _ _
  · exact compareTexts_swap x y _ _
  · exact compareTexts_swap x y _ _
  · exact (Std.OrientedOrd.eq_swap : compare yn xn = _).symm

theorem compareVersions_swap (a b : String) :
    (compareVersions a b).swap = compareVersions b a :=
  zipWithAll_swap (fun _ _ => compareSegments_swap _ _) _ _

theorem byVersion_asymm (a b : String) (h : byVersion a b = true) : byVersion b a = false := by
  have hlt : compareVersions a b = .lt := by simpa [byVersion] using h
  have hgt : compareVersions b a = .gt := by rw [← compareVersions_swap, hlt]; rfl
  simp [byVersion, hgt]

theorem byVersion_irrefl (a : String) : byVersion a a = false := by
  cases h : byVersion a a with
  | false => rfl
  | true => exact h ▸ byVersion_asymm a a h

/-! ## Gathering -/

variable {v : String} {vs all : List String}

section Gathering

variable (sorter : Sorter byVersion)

def listed (docs : List MavenMetadata) : List String :=
  docs.flatMap fun doc => doc.versions.filter (· ≠ "")

def releases (docs : List MavenMetadata) : List String :=
  (docs.map MavenMetadata.release).filter (· ≠ "")

theorem mem_foldl_addVersion : v ∈ vs.foldl addVersion all ↔ v ∈ all ∨ v ∈ vs.filter (· ≠ "") := by
  induction vs generalizing all with
  | nil => simp
  | cons w vs ih =>
    have hstep : v ∈ addVersion all w ↔ v ∈ all ∨ v = w ∧ w ≠ "" := by
      unfold addVersion
      split
      · rename_i h
        constructor
        · exact .inl
        · rintro (hv | ⟨rfl, hw⟩)
          · exact hv
          · exact h.resolve_left hw
      · rename_i h
        simp only [not_or] at h
        simp [h.1]
    rw [List.foldl_cons, ih, hstep, List.filter_cons]
    by_cases hw : w = ""
    · simp [hw]
    · simp [hw, or_assoc]

theorem nodup_foldl_addVersion (h : all.Nodup) : (vs.foldl addVersion all).Nodup := by
  induction vs generalizing all with
  | nil => exact h
  | cons w vs ih =>
    apply ih
    unfold addVersion
    split
    · exact h
    · rename_i hw
      simp only [not_or] at hw
      simpa [List.nodup_append] using ⟨h, fun v hv hvw => hw.2 (hvw ▸ hv)⟩

theorem gathered_lastUpdated (docs : List MavenMetadata) (g : Gathered) :
    (docs.foldl (gather sorter) g).lastUpdated =
      (docs.map MavenMetadata.lastUpdated).foldl max g.lastUpdated := by
  induction docs generalizing g with
  | nil => rfl
  | cons doc docs ih =>
    rw [List.foldl_cons, ih, List.map_cons, List.foldl_cons]
    congr 1
    simp only [gather, max_def_lt]

theorem gathered_release (docs : List MavenMetadata) (g : Gathered) (current : Option String)
    (hnamed : ∀ c ∈ current, c ≠ "") (hg : g.release = current.getD "") :
    (docs.foldl (gather sorter) g).release =
      ((releases docs).foldl (challenge (sortsAfter sorter)) current).getD "" := by
  induction docs generalizing g current with
  | nil => exact hg
  | cons doc docs ih =>
    rw [List.foldl_cons]
    by_cases hdoc : doc.release = ""
    · have hreleases : releases (doc :: docs) = releases docs := by simp [releases, hdoc]
      rw [hreleases]
      exact ih _ current hnamed (by simp [gather, hdoc, hg])
    · have hreleases : releases (doc :: docs) = doc.release :: releases docs := by
        simp [releases, hdoc]
      rw [hreleases, List.foldl_cons]
      apply ih
      · intro c hc
        cases current with
        | none => exact Option.some.inj hc ▸ hdoc
        | some d =>
          simp only [challenge] at hc
          split at hc
          · exact Option.some.inj hc ▸ hdoc
          · exact Option.some.inj hc ▸ hnamed d rfl
      · cases current with
        | none => simp [gather, hdoc, hg, isNewerVersion, challenge]
        | some d =>
          have hd : d ≠ "" := hnamed d rfl
          simp only [gather, hg, isNewerVersion, challenge, Option.getD_some, hd]
          by_cases hafter : sortsAfter sorter doc.release d = true <;> simp [hdoc, hafter]

theorem judges_sortsAfter : Judges byVersion (sortsAfter sorter) where
  greater x c h := by
    rcases sorter.pair byVersion_asymm x c with ⟨_, hle⟩ | ⟨hsort, _⟩
    · rw [h] at hle
      cases hle
    · simp [sortsAfter, hsort]
  smaller x c h := by
    rcases sorter.pair byVersion_asymm x c with ⟨hsort, _⟩ | ⟨_, hle⟩
    · have hne : c ≠ x := by
        rintro rfl
        rw [byVersion_irrefl] at h
        cases h
      simp [sortsAfter, hsort, hne]
    · rw [h] at hle
      cases hle

theorem sortsAfter_turning :
    sortsAfter (Sorter.turning byVersion) = atLeast byVersion := by
  funext a b
  unfold sortsAfter atLeast Sorter.turning
  simp only [sortBy, insertBy]
  cases h : byVersion a b with
  | false => simp
  | true =>
    have hne : b ≠ a := by
      rintro rfl
      rw [byVersion_irrefl] at h
      cases h
    simp [hne]

end Gathering

/-! ## The merged document -/

variable {l l₁ l₂ : List String}

section Merged

variable {sorter : Sorter byVersion} {docs : List MavenMetadata}

def gathered (sorter : Sorter byVersion) (docs : List MavenMetadata) : Gathered :=
  docs.foldl (gather sorter) {}

variable (sorter docs) in
theorem gathered_all : (gathered sorter docs).all =
    (docs.flatMap MavenMetadata.versions).foldl addVersion [] := by
  have hfold (g : Gathered) : (docs.foldl (gather sorter) g).all =
      (docs.flatMap MavenMetadata.versions).foldl addVersion g.all := by
    induction docs generalizing g with
    | nil => rfl
    | cons doc docs ih =>
      rw [List.foldl_cons, ih, List.flatMap_cons, List.foldl_append]
      rfl
  exact hfold {}

theorem mem_all : v ∈ (gathered sorter docs).all ↔ v ∈ listed docs := by
  rw [gathered_all, mem_foldl_addVersion, List.filter_flatMap]
  exact or_iff_right List.not_mem_nil

theorem all_eq_nil : (gathered sorter docs).all = [] ↔ listed docs = [] := by
  simp only [List.eq_nil_iff_forall_not_mem, mem_all]

theorem mem_sorted : v ∈ sorter.sort (gathered sorter docs).all ↔ v ∈ listed docs :=
  (sorter.perm _).mem_iff.trans mem_all

theorem all_sorted (order : WeakOrderOn byVersion (listed docs)) :
    (sorter.sort (gathered sorter docs).all).Pairwise fun a b => byVersion b a = false :=
  sorter.sorted _ (order.mono fun _ hv => mem_all.mp hv)

theorem last_greatest {l : List String} (hl : l.Pairwise fun a b => byVersion b a = false)
    {p : String → Bool} {r : String} (h : l.reverse.find? p = some r) :
    r ∈ l ∧ p r = true ∧ ∀ v ∈ l, p v = true → byVersion r v = false := by
  obtain ⟨hr, later, earlier, hsplit, hlater⟩ := List.find?_eq_some_iff_append.mp h
  have hreverse := List.pairwise_reverse.mpr hl
  rw [hsplit] at hreverse
  obtain ⟨_, htail, _⟩ := List.pairwise_append.mp hreverse
  refine ⟨List.mem_reverse.mp (hsplit ▸ by simp), hr, ?_⟩
  intro v hv hp
  rw [← List.mem_reverse, hsplit] at hv
  rcases List.mem_append.mp hv with hv | hv
  · have := hlater v hv
    rw [hp] at this
    cases this
  · rcases List.mem_cons.mp hv with rfl | hv
    · exact byVersion_irrefl v
    · exact (List.pairwise_cons.mp htail).1 v hv

theorem last_tied {l₁ l₂ : List String} (h : l₁.Perm l₂)
    (hl₁ : l₁.Pairwise fun a b => byVersion b a = false)
    (hl₂ : l₂.Pairwise fun a b => byVersion b a = false) (p : String → Bool) :
    Tied byVersion ((l₁.reverse.find? p).getD "") ((l₂.reverse.find? p).getD "") := by
  cases hfind₁ : l₁.reverse.find? p with
  | none =>
    have hfind₂ : l₂.reverse.find? p = none := by
      simp only [List.find?_eq_none, List.mem_reverse, ← h.mem_iff] at hfind₁ ⊢
      exact hfind₁
    rw [hfind₂]
    exact ⟨byVersion_irrefl _, byVersion_irrefl _⟩
  | some r₁ =>
    obtain ⟨hmem₁, hr₁, hgreatest₁⟩ := last_greatest hl₁ hfind₁
    cases hfind₂ : l₂.reverse.find? p with
    | none =>
      have hmem₂ : r₁ ∈ l₂.reverse := List.mem_reverse.mpr (h.mem_iff.mp hmem₁)
      exact absurd hr₁ (List.find?_eq_none.mp hfind₂ r₁ hmem₂)
    | some r₂ =>
      obtain ⟨hmem₂, hr₂, hgreatest₂⟩ := last_greatest hl₂ hfind₂
      exact ⟨hgreatest₁ r₂ (h.mem_iff.mpr hmem₂) hr₂, hgreatest₂ r₁ (h.mem_iff.mp hmem₁) hr₁⟩

/-- Sorting determines the list, its last version and its last release, up to ties. -/
theorem sorted_tied (order : WeakOrderOn byVersion l) (h₁ : l₁.Perm l) (h₂ : l₂.Perm l) :
    List.Forall₂ (Tied byVersion) (sorter.sort l₁) (sorter.sort l₂) ∧
      Tied byVersion ((sorter.sort l₁).getLast?.getD "") ((sorter.sort l₂).getLast?.getD "") ∧
      Tied byVersion (latestRelease (sorter.sort l₁)) (latestRelease (sorter.sort l₂)) := by
  have hperm₁ := (sorter.perm l₁).trans h₁
  have hperm₂ := (sorter.perm l₂).trans h₂
  have hsorted₁ := sorter.sorted l₁ (order.mono fun _ => h₁.mem_iff.mp)
  have hsorted₂ := sorter.sorted l₂ (order.mono fun _ => h₂.mem_iff.mp)
  have htied := last_tied (hperm₁.trans hperm₂.symm) hsorted₁ hsorted₂
  have hlast (l : List String) : l.getLast? = l.reverse.find? fun _ => true := by
    rw [List.getLast?_eq_head?_reverse]
    cases l.reverse <;> rfl
  rw [hlast, hlast]
  exact ⟨order.sorted_tied hperm₁ hperm₂ hsorted₁ hsorted₂, htied _, htied _⟩

variable (sorter) in
theorem merged_latest (order : WeakOrderOn byVersion (listed docs)) (hsome : listed docs ≠ []) :
    ((gathered sorter docs).merged sorter).latest ∈ listed docs ∧
      ∀ v ∈ listed docs, byVersion ((gathered sorter docs).merged sorter).latest v = false := by
  cases hlast : (sorter.sort (gathered sorter docs).all).getLast? with
  | none =>
    obtain ⟨v, hv⟩ := List.exists_mem_of_ne_nil _ hsome
    have hv : v ∈ sorter.sort (gathered sorter docs).all := mem_sorted.mpr hv
    rw [List.getLast?_eq_none_iff.mp hlast] at hv
    cases hv
  | some last =>
    obtain ⟨hmem, hgreatest⟩ := sorter.last_greatest (order.mono fun _ => mem_all.mp) hlast
    have heq : ((gathered sorter docs).merged sorter).latest = last := by
      simp [Gathered.merged, hlast]
    rw [heq]
    exact ⟨mem_all.mp hmem, fun v hv => hgreatest v (mem_all.mpr hv)⟩

def isRelease (v : String) : Bool :=
  !isSnapshotVersion v

theorem ne_empty_of_mem_listed (h : v ∈ listed docs) : v ≠ "" := by
  obtain ⟨doc, _, hv⟩ := List.mem_flatMap.mp h
  simpa using (List.mem_filter.mp hv).2

variable (sorter) in
theorem merged_release (order : WeakOrderOn byVersion (listed docs)) (hv : v ∈ listed docs)
    (hrelease : isRelease v = true) :
    ((gathered sorter docs).merged sorter).release ∈ listed docs ∧
      isRelease ((gathered sorter docs).merged sorter).release = true ∧
      ∀ w ∈ listed docs, isRelease w = true →
        byVersion ((gathered sorter docs).merged sorter).release w = false := by
  cases hfind : (sorter.sort (gathered sorter docs).all).reverse.find? isRelease with
  | none =>
    have := List.find?_eq_none.mp hfind v (List.mem_reverse.mpr (mem_sorted.mpr hv))
    exact absurd hrelease this
  | some r =>
    obtain ⟨hmem, hr, hgreatest⟩ := last_greatest (all_sorted order) hfind
    have hlisted := mem_sorted.mp hmem
    have hlatest : latestRelease (sorter.sort (gathered sorter docs).all) = r := by
      show (((sorter.sort (gathered sorter docs).all).reverse.find? isRelease).getD "") = r
      rw [hfind]
      rfl
    have heq : ((gathered sorter docs).merged sorter).release = r := by
      simp [Gathered.merged, hlatest, ne_empty_of_mem_listed hlisted]
    rw [heq]
    exact ⟨hlisted, hr, fun w hw => hgreatest w (mem_sorted.mpr hw)⟩

theorem merged_release_named (hnone : ∀ v ∈ listed docs, isRelease v = false) :
    ((gathered sorter docs).merged sorter).release =
      (champion (sortsAfter sorter) (releases docs)).getD "" := by
  have hlatest : latestRelease (sorter.sort (gathered sorter docs).all) = "" := by
    have hfind : (sorter.sort (gathered sorter docs).all).reverse.find? isRelease = none := by
      apply List.find?_eq_none.mpr
      intro v hv
      simp [hnone v (mem_sorted.mp (List.mem_reverse.mp hv))]
    show (((sorter.sort (gathered sorter docs).all).reverse.find? isRelease).getD "") = ""
    rw [hfind]
    rfl
  simp only [Gathered.merged, hlatest, if_true]
  exact gathered_release sorter docs {} none (by simp) rfl

end Merged

/-! ## Other orders of the members -/

structure SameButTies (m m' : MavenMetadata) : Prop where
  versions : List.Forall₂ (Tied byVersion) m.versions m'.versions
  latest : Tied byVersion m.latest m'.latest
  release : Tied byVersion m.release m'.release
  lastUpdated : m.lastUpdated = m'.lastUpdated

variable {docs₁ docs₂ : List MavenMetadata}

section Orders

variable {sorter : Sorter byVersion} {docs docs' : List MavenMetadata}

theorem listed_perm (h : docs.Perm docs') : (listed docs).Perm (listed docs') :=
  h.flatMap_right _

theorem releases_perm (h : docs.Perm docs') : (releases docs).Perm (releases docs') :=
  (h.map _).filter _

theorem nodup_all : (gathered sorter docs).all.Nodup := by
  rw [gathered_all]
  exact nodup_foldl_addVersion List.nodup_nil

theorem all_perm (h : docs.Perm docs') :
    (gathered sorter docs).all.Perm (gathered sorter docs').all := by
  refine (List.perm_ext_iff_of_nodup nodup_all nodup_all).mpr ?_
  intro v
  exact mem_all.trans ((listed_perm h).mem_iff.trans mem_all.symm)

theorem lastUpdated_perm (h : docs.Perm docs') :
    (gathered sorter docs).lastUpdated = (gathered sorter docs').lastUpdated := by
  rw [gathered, gathered, gathered_lastUpdated, gathered_lastUpdated]
  exact (h.map _).foldl_eq _

theorem champions_tied (settled : l = [] ∨ TopTied byVersion l) (h₁ : l₁.Perm l) (h₂ : l₂.Perm l) :
    Tied byVersion ((champion (sortsAfter sorter) l₁).getD "")
      ((champion (sortsAfter sorter) l₂).getD "") := by
  rcases settled with rfl | settled
  · rw [h₁.eq_nil, h₂.eq_nil]
    exact ⟨byVersion_irrefl _, byVersion_irrefl _⟩
  · obtain ⟨r₁, r₂, hr₁, hr₂, htied⟩ := settled.champions (judges_sortsAfter sorter) h₁ h₂
    rw [hr₁, hr₂]
    exact htied

/-- The releases the members name can be told apart, if they are all there is. -/
def ReleasesSettled (docs : List MavenMetadata) : Prop :=
  (∀ v ∈ listed docs, isRelease v = false) →
    releases docs = [] ∨ TopTied byVersion (releases docs)

variable (order : WeakOrderOn byVersion (listed docs))

include order

theorem release_tied (settled : ReleasesSettled docs) (h₁ : docs₁.Perm docs)
    (h₂ : docs₂.Perm docs) :
    Tied byVersion ((gathered sorter docs₁).merged sorter).release
      ((gathered sorter docs₂).merged sorter).release := by
  have hmem₁ {v : String} : v ∈ listed docs₁ ↔ v ∈ listed docs := (listed_perm h₁).mem_iff
  have hmem₂ {v : String} : v ∈ listed docs₂ ↔ v ∈ listed docs := (listed_perm h₂).mem_iff
  by_cases hrelease : ∃ v ∈ listed docs, isRelease v = true
  · obtain ⟨v, hv, hrelease⟩ := hrelease
    obtain ⟨hin₁, his₁, hgreatest₁⟩ := merged_release sorter
      (order.mono fun _ => hmem₁.mp) (hmem₁.mpr hv) hrelease
    obtain ⟨hin₂, his₂, hgreatest₂⟩ := merged_release sorter
      (order.mono fun _ => hmem₂.mp) (hmem₂.mpr hv) hrelease
    exact ⟨hgreatest₁ _ (hmem₁.mpr (hmem₂.mp hin₂)) his₂,
      hgreatest₂ _ (hmem₂.mpr (hmem₁.mp hin₁)) his₁⟩
  · have hnone : ∀ v ∈ listed docs, isRelease v = false := by
      intro v hv
      cases h : isRelease v with
      | false => rfl
      | true => exact absurd ⟨v, hv, h⟩ hrelease
    rw [merged_release_named fun v hv => hnone v (hmem₁.mp hv),
      merged_release_named fun v hv => hnone v (hmem₂.mp hv)]
    exact champions_tied (settled hnone) (releases_perm h₁) (releases_perm h₂)

theorem merged_sameButTies (settled : ReleasesSettled docs) (h₁ : docs₁.Perm docs)
    (h₂ : docs₂.Perm docs) :
    SameButTies ((gathered sorter docs₁).merged sorter)
      ((gathered sorter docs₂).merged sorter) := by
  have hall : WeakOrderOn byVersion (gathered sorter docs).all := order.mono fun _ => mem_all.mp
  obtain ⟨hversions, hlatest, -⟩ := sorted_tied hall (all_perm h₁) (all_perm h₂)
  constructor
  · exact hversions
  · exact hlatest
  · exact release_tied order settled h₁ h₂
  · exact lastUpdated_perm (h₁.trans h₂.symm)

end Orders

/-! ## Documents and their entries -/

def listedVersions (doc : Element) : List String :=
  (fieldsOf doc).versions.filter (· ≠ "")

def snapshotVersions (doc : Element) : List Element :=
  named "snapshotVersion" (under "snapshotVersions" (versioning doc))

def plugins (doc : Element) : List Element :=
  named "plugin" (under "plugins" doc.children)

theorem listed_map (docs : List Element) :
    listed (docs.map fieldsOf) = docs.flatMap listedVersions := by
  simp only [listed, List.flatMap_map]
  rfl

theorem named_leaves (name : String) (texts : List String) :
    named name (texts.map (leaf name)) = texts.map (leaf name) := by
  simp [named, leaf, Element.name]

variable (m : MavenMetadata)

theorem fieldsOf_marshal : fieldsOf m.marshal = m := by
  have hversions : under "versions" (versioning m.marshal) = m.versions.map (leaf "version") :=
    List.append_nil _
  unfold fieldsOf values
  rw [hversions, named_leaves, List.map_map]
  have htexts : m.versions.map (Element.text ∘ leaf "version") = m.versions := List.map_id _
  rw [htexts]
  rfl

theorem snapshotVersions_marshal : snapshotVersions m.marshal = [] :=
  rfl

theorem plugins_marshal : plugins m.marshal = [] :=
  rfl

/-- Nothing of the documents is lost, and the greatest versions are named. -/
structure Complete (docs : List Element) (merged : MavenMetadata) : Prop where
  versions : ∀ doc ∈ docs, ∀ v ∈ listedVersions doc, v ∈ listedVersions merged.marshal
  builds : ∀ doc ∈ docs, ∀ e ∈ snapshotVersions doc, e ∈ snapshotVersions merged.marshal
  plugins : ∀ doc ∈ docs, ∀ e ∈ plugins doc, e ∈ Maven.plugins merged.marshal
  latest : merged.latest ∈ docs.flatMap listedVersions ∧
    ∀ v ∈ docs.flatMap listedVersions, byVersion merged.latest v = false
  release : ∀ v ∈ docs.flatMap listedVersions, isRelease v = true →
    merged.release ∈ docs.flatMap listedVersions ∧ isRelease merged.release = true ∧
      byVersion merged.release v = false

section Parts

variable (decode : Bytes → Except String Element)

def documentOf (part : GroupPart) : Element :=
  match decode part.body with
  | .ok doc => doc
  | .error _ => leaf "" ""

def WellFormed (part : GroupPart) : Prop :=
  ∃ doc, decode part.body = .ok doc ∧ doc.name = "metadata"

def anyFeed : Feed :=
  ⟨"", "", "", false, ""⟩

def anyIntent : Intent where
  kind := .metadata
  coord := ⟨"", "", ""⟩
  remotePath := ""

abbrev docsOf (parts : List GroupPart) : List MavenMetadata :=
  (parts.map (documentOf decode)).map fieldsOf

/-- Merging succeeds, loses nothing and does not depend on the order of the members. -/
def LosesNothing (parts : List GroupPart) : Prop :=
  ∀ (sorter : Sorter byVersion) (feed : Feed) (intent : Intent),
    (∃ merged, mergeParts decode sorter parts = .ok merged ∧
      merge decode sorter feed intent parts = .ok (document merged.marshal) ∧
      Complete (parts.map (documentOf decode)) merged) ∧
    ∀ parts₁ parts₂, parts₁.Perm parts → parts₂.Perm parts →
      ∃ m₁ m₂, mergeParts decode sorter parts₁ = .ok m₁ ∧
        mergeParts decode sorter parts₂ = .ok m₂ ∧ SameButTies m₁ m₂

structure Mergeable (docs : List Element) : Prop where
  builds : ∀ doc ∈ docs, snapshotVersions doc = []
  plugins : ∀ doc ∈ docs, plugins doc = []
  lists : docs.flatMap listedVersions ≠ []
  order : WeakOrderOn byVersion (docs.flatMap listedVersions)
  settled : ReleasesSettled (docs.map fieldsOf)

variable {decode} {parts : List GroupPart}

theorem readPart_ok {part : GroupPart} (h : WellFormed decode part) :
    readPart decode part = .ok (fieldsOf (documentOf decode part)) := by
  obtain ⟨doc, hdecode, hname⟩ := h
  have hread : (decode part.body >>= unmarshal) = .ok (fieldsOf doc) := by
    rw [hdecode]
    exact if_neg (not_not.mpr hname)
  rw [readPart, hread]
  simp only [documentOf, hdecode]

theorem mergeParts_eq (sorter : Sorter byVersion)
    (hparts : ∀ part ∈ parts, WellFormed decode part) :
    mergeParts decode sorter parts =
      let g := gathered sorter (docsOf decode parts)
      if g.all = [] then .error (.wrapping .notFound "no member of the group lists any version")
      else .ok (g.merged sorter) := by
  unfold mergeParts
  rw [Fallible.mapM_eq_map fun part hpart => readPart_ok (hparts part hpart), docsOf, List.map_map]
  rfl

section

variable (hparts : ∀ part ∈ parts, WellFormed decode part)

include hparts

theorem losesNothing_of_mergeable (mergeable : Mergeable (parts.map (documentOf decode))) :
    LosesNothing decode parts := by
  intro sorter feed intent
  have hlisted := listed_map (parts.map (documentOf decode))
  have hsome : listed (docsOf decode parts) ≠ [] :=
    hlisted ▸ mergeable.lists
  have order : WeakOrderOn byVersion (listed (docsOf decode parts)) :=
    hlisted ▸ mergeable.order
  have hmerge {parts' : List GroupPart} (hperm : parts'.Perm parts) :
      mergeParts decode sorter parts' =
        .ok ((gathered sorter (docsOf decode parts')).merged sorter) := by
    rw [mergeParts_eq sorter fun part hpart => hparts part (hperm.mem_iff.mp hpart)]
    apply if_neg
    rw [all_eq_nil]
    intro hempty
    exact hsome (List.Perm.eq_nil (hempty ▸ listed_perm ((hperm.symm.map _).map _)))
  constructor
  · refine ⟨_, hmerge (.refl _), by rw [merge, hmerge (.refl _)]; rfl, ?_⟩
    constructor
    · intro doc hdoc v hv
      have hin : v ∈ listed (docsOf decode parts) := by
        rw [hlisted]
        exact List.mem_flatMap.mpr ⟨doc, hdoc, hv⟩
      rw [listedVersions, fieldsOf_marshal]
      exact List.mem_filter.mpr ⟨mem_sorted.mpr hin, (List.mem_filter.mp hv).2⟩
    · intro doc hdoc e he
      rw [mergeable.builds doc hdoc] at he
      cases he
    · intro doc hdoc e he
      rw [mergeable.plugins doc hdoc] at he
      cases he
    · rw [← hlisted]
      exact merged_latest sorter order hsome
    · rw [← hlisted]
      intro v hv hrelease
      obtain ⟨hmem, his, hgreatest⟩ := merged_release sorter order hv hrelease
      exact ⟨hmem, his, hgreatest v hv hrelease⟩
  · intro parts₁ parts₂ h₁ h₂
    exact ⟨_, _, hmerge h₁, hmerge h₂, merged_sameButTies order mergeable.settled
      ((h₁.map _).map _) ((h₂.map _).map _)⟩

theorem mergeParts_ok {sorter : Sorter byVersion} {merged : MavenMetadata}
    (h : mergeParts decode sorter parts = .ok merged) :
    listed (docsOf decode parts) ≠ [] ∧
      merged = (gathered sorter (docsOf decode parts)).merged sorter := by
  rw [mergeParts_eq sorter hparts] at h
  dsimp only at h
  split at h
  · cases h
  · rename_i hsome
    exact ⟨fun hempty => hsome (all_eq_nil.mpr hempty), (Except.ok.inj h).symm⟩

theorem order_of_losesNothing (hloses : LosesNothing decode parts) :
    WeakOrderOn byVersion (listed (docsOf decode parts)) := by
  have hlisted := listed_map (parts.map (documentOf decode))
  let docs := docsOf decode parts
  let all := (docs.flatMap MavenMetadata.versions).foldl addVersion []
  have hall (sorter : Sorter byVersion) : (gathered sorter docs).all = all :=
    gathered_all sorter docs
  have hmem {v : String} : v ∈ all ↔ v ∈ listed docs := by
    rw [← hall (.stable byVersion)]
    exact mem_all
  have order : WeakOrderOn byVersion all := by
    refine .of_last_greatest fun sorter last hlast v hv => ?_
    obtain ⟨⟨merged, hmerge, -, complete⟩, -⟩ := hloses sorter anyFeed anyIntent
    obtain ⟨-, hmerged⟩ := mergeParts_ok hparts hmerge
    have hlatest : merged.latest = last := by
      rw [hmerged]
      show (sorter.sort (gathered _ docs).all).getLast?.getD "" = last
      rw [hall, hlast]
      rfl
    rw [← hlatest]
    exact complete.latest.2 v (hlisted ▸ hmem.mp hv)
  exact order.mono fun _ => hmem.mpr

theorem settled_of_losesNothing (hloses : LosesNothing decode parts) :
    ReleasesSettled (docsOf decode parts) := by
  intro hnone
  by_cases hempty : releases (docsOf decode parts) = []
  · exact .inl hempty
  · refine .inr (topTied_of_wins byVersion_asymm hempty ?_)
    rintro x y ⟨lx, hlx, hx⟩ ⟨ly, hly, hy⟩
    -- an order of the releases comes from an order of the members
    have hparts' {l : List String}
        (hl : l.Perm (releases (docsOf decode parts))) :
        ∃ parts' : List GroupPart, parts'.Perm parts ∧
          releases (docsOf decode parts') = l := by
      obtain ⟨parts', hperm, hreleases⟩ := exists_perm_filter_map
        (f := fun part => (fieldsOf (documentOf decode part)).release) (p := (· ≠ "")) (l := parts)
        (by simpa [releases, List.map_map, Function.comp_def] using hl)
      exact ⟨parts', hperm, by simpa [releases, List.map_map, Function.comp_def] using hreleases⟩
    obtain ⟨parts₁, hperm₁, hreleases₁⟩ := hparts' hlx
    obtain ⟨parts₂, hperm₂, hreleases₂⟩ := hparts' hly
    obtain ⟨-, hsame⟩ := hloses (.turning byVersion) anyFeed anyIntent
    obtain ⟨m₁, m₂, hmerge₁, hmerge₂, same⟩ := hsame parts₁ parts₂ hperm₁ hperm₂
    have hrelease {parts' : List GroupPart} (hperm : parts'.Perm parts) {m : MavenMetadata}
        (hmerge : mergeParts decode (.turning byVersion) parts' = .ok m) {z : String}
        (hz : champion (atLeast byVersion)
          (releases (docsOf decode parts')) = some z) : m.release = z := by
      obtain ⟨-, hm⟩ := mergeParts_ok
        (fun part hpart => hparts part (hperm.mem_iff.mp hpart)) hmerge
      rw [hm, merged_release_named, sortsAfter_turning, hz]
      · rfl
      · intro v hv
        exact hnone v ((listed_perm ((hperm.map _).map _)).mem_iff.mp hv)
    have hwinner₁ : m₁.release = x := hrelease hperm₁ hmerge₁ (by rw [hreleases₁]; exact hx)
    have hwinner₂ : m₂.release = y := hrelease hperm₂ hmerge₂ (by rw [hreleases₂]; exact hy)
    rw [← hwinner₁, ← hwinner₂]
    exact same.release

end

/-- Merging loses nothing exactly for documents of versions whose comparison is an order and
whose own releases, if they are needed, have a greatest among them. -/
theorem merge_loses_nothing_iff (hparts : ∀ part ∈ parts, WellFormed decode part) :
    LosesNothing decode parts ↔ Mergeable (parts.map (documentOf decode)) := by
  refine ⟨?_, losesNothing_of_mergeable hparts⟩
  intro hloses
  have hlisted := listed_map (parts.map (documentOf decode))
  obtain ⟨⟨merged, hmerge, -, complete⟩, -⟩ :=
    hloses (.stable byVersion) anyFeed anyIntent
  constructor
  · intro doc hdoc
    rw [List.eq_nil_iff_forall_not_mem]
    intro e he
    have := complete.builds doc hdoc e he
    rw [snapshotVersions_marshal] at this
    cases this
  · intro doc hdoc
    rw [List.eq_nil_iff_forall_not_mem]
    intro e he
    have := complete.plugins doc hdoc e he
    rw [plugins_marshal] at this
    cases this
  · exact hlisted ▸ (mergeParts_ok hparts hmerge).1
  · exact hlisted ▸ order_of_losesNothing hparts hloses
  · exact settled_of_losesNothing hparts hloses

end Parts

def snapshotDocument : Element :=
  branch "metadata" [
    leaf "groupId" "org.acme", leaf "artifactId" "lib", leaf "version" "1.0-SNAPSHOT",
    branch "versioning" [
      branch "snapshot" [leaf "timestamp" "20260726.101500", leaf "buildNumber" "1"],
      leaf "lastUpdated" "20260726101500",
      branch "snapshotVersions" [
        branch "snapshotVersion" [
          leaf "extension" "jar", leaf "value" "1.0-20260726.101500-1",
          leaf "updated" "20260726101500"]]]]

/-- The request for the metadata of a SNAPSHOT is merged, and the group then has no such
document although a member lists a build. -/
theorem snapshot_metadata_not_found :
    let decode : Bytes → Except String Element := fun _ => .ok snapshotDocument
    let path := "org/acme/lib/1.0-SNAPSHOT/maven-metadata.xml"
    (parse ⟨"GET", path, ""⟩).map mergeableIntent = .ok true ∧
      (snapshotVersions snapshotDocument).length = 1 ∧
      mergeParts decode (.stable byVersion) [⟨"snapshots", document snapshotDocument⟩] =
        .error (.wrapping .notFound "no member of the group lists any version") := by
  decide +kernel

def artifactDocument (v : String) : Element :=
  MavenMetadata.marshal ⟨"org.acme", "lib", v, v, [v], "20260726101500"⟩

def oneEach (body : Bytes) : Except String Element :=
  .ok (artifactDocument (if body = [] then "1.0" else "2.0"))

/-- Two members with a release each are merged. -/
theorem merge_loses_nothing_releases :
    LosesNothing oneEach [⟨"releases", []⟩, ⟨"central", [1]⟩] := by
  apply (merge_loses_nothing_iff ?_).mpr
  · have hdocs : ([⟨"releases", []⟩, ⟨"central", [1]⟩] : List GroupPart).map (documentOf oneEach) =
        [artifactDocument "1.0", artifactDocument "2.0"] := rfl
    have hlists : [artifactDocument "1.0", artifactDocument "2.0"].flatMap listedVersions =
        ["1.0", "2.0"] := by decide +kernel
    rw [hdocs]
    constructor
    · simp [artifactDocument, snapshotVersions_marshal]
    · simp [artifactDocument, plugins_marshal]
    · rw [hlists]
      simp
    · rw [hlists]
      exact .pair byVersion_asymm _ _
    · intro hnone
      rw [listed_map, hlists] at hnone
      exact absurd (hnone "1.0" (by simp)) (by decide)
  · intro part _
    exact ⟨_, rfl, rfl⟩

end FondacoFormal.Formats.Maven
