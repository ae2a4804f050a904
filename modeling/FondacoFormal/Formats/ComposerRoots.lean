import FondacoFormal.Formats.Composer

/-!
# What the root manifest of a Composer group covers

A root manifest without an inventory covers every name; one with an inventory covers the names
it lists, those its patterns match and its inline packages.
-/

namespace FondacoFormal.Formats.Composer

open Library Library.Fallible Api Server

/-! ## Coverage -/

section Coverage

variable (lib : JsonLib)

def listed (root : lib.Map) (key : String) : List String :=
  match root.lookup key with
  | some (.arr items) => items.filterMap Value.asText
  | _ => []

def inlinePackages (root : lib.Map) : List String :=
  match root.lookup "packages" with
  | some (.obj packages) => packages.map Prod.fst
  | _ => []

/-- A client of this root looks for the name; `fits` says which names a pattern matches. -/
def Covers (fits : String → String → Prop) (root : lib.Map) (name : String) : Prop :=
  (∀ key ∈ inventoryKeys, root.lookup key = none) ∨ name ∈ listed lib root "available-packages" ∨
    (∃ pattern ∈ listed lib root "available-package-patterns", fits pattern name) ∨
    name ∈ inlinePackages lib root

def rootOf (part : GroupPart) : lib.Map :=
  ((Value.unmarshalMap lib.numbers part.body).map Value.fields).getD []

/-- The part is a root manifest: an object, and lists of texts where it has an inventory. -/
def WellFormed (part : GroupPart) : Prop :=
  Value.unmarshalMap lib.numbers part.body = some (.obj (rootOf lib part)) ∧
    ∀ key ∈ inventoryKeys, ∀ value, (rootOf lib part).lookup key = some value →
      ∃ names : List String, value = .arr (names.map .str)

/-- The group has a root manifest that covers what the members cover and has their inline
packages. -/
def CoversMembers (parseURL : String → Except String Url) (fits : String → String → Prop)
    (feed : Feed) (parts : List GroupPart) : Prop :=
  ∃ body root, mergeRoot lib parseURL feed parts = .ok body ∧
    Value.unmarshalMap lib.numbers body = some (.obj root) ∧
    (∀ part ∈ parts, ∀ name, Covers lib fits (rootOf lib part) name → Covers lib fits root name) ∧
    ∀ part ∈ parts, ∀ name ∈ inlinePackages lib (rootOf lib part), name ∈ inlinePackages lib root

/-! ## The condition -/

/-- An archive can be fetched from a URL: it is absolute and its path ends in a file name. -/
def Fetchable (parseURL : String → Except String Url) (url : String) : Prop :=
  ∃ u, parseURL url = .ok u ∧ u.isAbs = true ∧ lastElement u.escapedPath ∉ ["", ".", "/"]

def AllFetchable (parseURL : String → Except String Url) (packages : lib.Map) : Prop :=
  ∀ entry ∈ packages, ∀ versions, entry.2 = .arr versions → ∀ version, .obj version ∈ versions →
    ∀ dist url, archiveURL lib "url" version = some (dist, url) → Fetchable parseURL url

def AllCarry (parts : List GroupPart) (key : String) : Prop :=
  ∀ part ∈ parts, ((rootOf lib part).lookup key).isSome = true

structure Reconcilable (parseURL : String → Except String Url) (fits : String → String → Prop)
    (first : GroupPart) (parts : List GroupPart) : Prop where
  /-- The archives of the first member's inline packages can be fetched. -/
  archives : ∀ packages, (rootOf lib first).lookup "packages" = some (.obj packages) →
    AllFetchable lib parseURL packages
  inlined : ∀ part ∈ parts, ∀ name ∈ inlinePackages lib (rootOf lib part),
    name ∈ inlinePackages lib (rootOf lib first)
  /-- If all members list packages but not all have patterns, what the patterns match is listed. -/
  patterns : AllCarry lib parts "available-packages" →
    ¬ AllCarry lib parts "available-package-patterns" → ∀ part ∈ parts,
      ∀ pattern ∈ listed lib (rootOf lib part) "available-package-patterns", ∀ name,
        fits pattern name →
          (∃ other ∈ parts, name ∈ listed lib (rootOf lib other) "available-packages") ∨
            name ∈ inlinePackages lib (rootOf lib first)
  /-- If all members have patterns but not all list packages, what is listed is matched. -/
  packages : AllCarry lib parts "available-package-patterns" →
    ¬ AllCarry lib parts "available-packages" → ∀ part ∈ parts,
      ∀ name ∈ listed lib (rootOf lib part) "available-packages",
        (∃ other ∈ parts, ∃ pattern ∈ listed lib (rootOf lib other) "available-package-patterns",
          fits pattern name) ∨ name ∈ inlinePackages lib (rootOf lib first)

end Coverage

variable {parts : List GroupPart} {rest : List GroupPart} {first : GroupPart} {name : String}

section Merging

variable {lib : JsonLib} {parseURL : String → Except String Url}

/-! ## The inventory -/

theorem mem_compact (names : List String) : name ∈ compact names ↔ name ∈ names := by
  fun_induction compact names with
  | case1 | case2 => rfl
  | case3 next rest ih => rw [ih, List.mem_cons (b := next) (l := next :: rest)]; simp
  | case4 first next rest hne ih => rw [List.mem_cons, List.mem_cons, ih]

def hasList (root : lib.Map) (key : String) : Bool :=
  match root.lookup key with
  | some (.arr _) => true
  | _ => false

theorem foldl_addListed (key : String) (members : List lib.Any) (state : List String × Bool) :
    members.foldl (addListed lib key) state =
      (state.1 ++ members.flatMap fun member => listed lib member.fields key,
        state.2 && members.all fun member => hasList member.fields key) := by
  induction members generalizing state with
  | nil => simp
  | cons member rest ih =>
    have hstep : addListed lib key state member =
        (state.1 ++ listed lib member.fields key, state.2 && hasList member.fields key) := by
      cases hlookup : member.fields.lookup key with
      | none => simp [addListed, listed, hasList, hlookup]
      | some value => cases value <;> simp [addListed, listed, hasList, hlookup]
    rw [List.foldl_cons, hstep, ih, List.flatMap_cons, List.all_cons, List.append_assoc,
      Bool.and_assoc]

def inventory (members : List lib.Any) (key : String) : Option lib.Any :=
  if members.all fun member => hasList member.fields key then
    some (listValue lib (compact ((members.flatMap fun member =>
      listed lib member.fields key).insertionSort (· ≤ ·))))
  else none

theorem lookup_reconcile (members : List lib.Any) (doc : lib.Map) (key other : String) :
    (reconcile lib members doc key).lookup other =
      if other = key then inventory members key else doc.lookup other := by
  rw [reconcile, foldl_addListed, inventory]
  simp only [Bool.true_and, List.nil_append]
  split
  · exact Fields.lookup_set ..
  · exact Fields.lookup_erase ..

theorem lookup_mergeInventory (doc : lib.Map) (members : List lib.Any) (key : String) :
    (mergeInventory lib doc members).lookup key =
      if key ∈ inventoryKeys then inventory members key else doc.lookup key := by
  simp only [mergeInventory, inventoryKeys, List.foldl_cons, List.foldl_nil, lookup_reconcile,
    List.mem_cons, List.not_mem_nil, or_false]
  split
  · next heq => rw [if_pos (.inr heq), heq]
  · next hne =>
      split
      · next heq => rw [if_pos (.inl heq), heq]
      · next hne' => rw [if_neg (not_or.2 ⟨hne', hne⟩)]

theorem canonical_listValue (names : List String) : Value.Canonical (listValue lib names) := by
  rw [listValue]
  split
  · exact Value.canonical_null
  · refine Value.canonical_arr.2 fun item hmem => ?_
    obtain ⟨name, -, rfl⟩ := List.mem_map.1 hmem
    exact Value.canonical_str name

variable {doc : lib.Map}

theorem canonical_mergeInventory (hdoc : Value.Canonical (.obj doc)) (members : List lib.Any) :
    Value.Canonical (.obj (mergeInventory lib doc members)) := by
  have hreconcile : ∀ (doc : lib.Map) (key : String), Value.Canonical (.obj doc) →
      Value.Canonical (.obj (reconcile lib members doc key)) := by
    intro doc key hdoc
    rw [reconcile]
    dsimp only
    split
    · exact hdoc.set key (canonical_listValue _)
    · exact hdoc.erase key
  exact hreconcile _ _ (hreconcile _ _ hdoc)

theorem filterMap_asText (names : List String) :
    (names.map (.str : String → lib.Any)).filterMap Value.asText = names := by
  induction names with
  | nil => rfl
  | cons name rest ih => simpa [Value.asText] using ih

variable {key : String} {root : lib.Map}

theorem mem_listed_of_inventory {members : List lib.Any}
    (hlookup : root.lookup key = inventory members key) :
    name ∈ listed lib root key ↔
      (∀ member ∈ members, hasList member.fields key = true) ∧
        ∃ member ∈ members, name ∈ listed lib member.fields key := by
  rw [listed, hlookup, inventory]
  by_cases hall : (members.all fun member => hasList member.fields key) = true
  · have hmem : name ∈ compact ((members.flatMap fun member =>
        listed lib member.fields key).insertionSort (· ≤ ·)) ↔
        ∃ member ∈ members, name ∈ listed lib member.fields key := by
      rw [mem_compact, List.mem_insertionSort, List.mem_flatMap]
    rw [if_pos hall, ← hmem, listValue]
    generalize compact _ = names
    by_cases hnames : names = []
    · simp [hnames]
    · simp only [if_neg hnames, filterMap_asText]
      exact ⟨fun h => ⟨List.all_eq_true.1 hall, h⟩, fun h => h.2⟩
  · rw [if_neg hall]
    simp only [List.not_mem_nil, false_iff, not_and]
    intro hmembers
    exact absurd (List.all_eq_true.2 hmembers) hall

/-! ## Rewriting -/

theorem rewriteDistURL_ok_iff (base : String) {url : String} :
    (∃ out, rewriteDistURL parseURL base url = .ok out) ↔ Fetchable parseURL url := by
  rw [rewriteDistURL, Fetchable]
  cases parseURL url with
  | error cause => simp
  | ok u =>
    cases habs : u.isAbs with
    | false => simp [habs]
    | true =>
      by_cases hfile : (lastElement u.escapedPath = "" ∨ lastElement u.escapedPath = ".") ∨
          lastElement u.escapedPath = "/"
      · simp only [habs, Bool.not_true, Bool.false_eq_true, if_false, Bool.or_eq_true,
          decide_eq_true_eq, hfile, if_true, reduceCtorEq, exists_false, false_iff]
        rintro ⟨_, ⟨⟩, -, hnone⟩
        exact hnone (by simpa [or_assoc] using hfile)
      · simp only [habs, Bool.not_true, Bool.false_eq_true, if_false, Bool.or_eq_true,
          decide_eq_true_eq, hfile]
        exact ⟨fun _ => ⟨u, rfl, habs, by simpa [or_assoc] using hfile⟩, fun _ => ⟨_, rfl⟩⟩

theorem rewriteVersion_ok_iff (base : String) {item : lib.Any} :
    (∃ out, rewriteVersion lib parseURL base item = .ok out) ↔
      ∀ version, item = .obj version → ∀ dist url, archiveURL lib "url" version = some (dist, url) →
        Fetchable parseURL url := by
  cases item with
  | obj version =>
    rw [rewriteVersion]
    cases hdist : archiveURL lib "url" version with
    | none =>
      refine ⟨?_, fun _ => ⟨_, rfl⟩⟩
      rintro - _ ⟨⟩ dist url hsome
      rw [hdist] at hsome
      cases hsome
    | some found =>
      simp only [map_eq_ok]
      constructor
      · rintro ⟨out, moved, hmoved, -⟩ _ ⟨⟩ dist url hsome
        rw [hdist] at hsome
        cases hsome
        exact (rewriteDistURL_ok_iff base).1 ⟨moved, hmoved⟩
      · intro hfetch
        obtain ⟨moved, hmoved⟩ :=
          (rewriteDistURL_ok_iff base).2 (hfetch version rfl found.1 found.2 hdist)
        exact ⟨_, moved, hmoved, rfl⟩
  | null | bool | num | str | arr => exact ⟨fun _ => nofun, fun _ => ⟨_, rfl⟩⟩

theorem rewriteVersions_ok_iff (base : String) {raw : lib.Any} :
    (∃ out, rewriteVersions lib parseURL base raw = .ok out) ↔
      ∀ versions, raw = .arr versions → ∀ version, .obj version ∈ versions →
        ∀ dist url, archiveURL lib "url" version = some (dist, url) → Fetchable parseURL url := by
  cases raw with
  | arr versions =>
    simp only [rewriteVersions, map_eq_ok]
    constructor
    · rintro ⟨out, results, hresults, -⟩ _ ⟨⟩ version hmem
      obtain ⟨result, -, hresult⟩ := mapM_result hresults hmem
      exact (rewriteVersion_ok_iff base).1 ⟨result, hresult⟩ version rfl
    · intro hall
      have htotal : ∀ item ∈ versions, ∃ out, rewriteVersion lib parseURL base item = .ok out :=
        fun item hmem => (rewriteVersion_ok_iff base).2 fun version heq =>
          hall versions rfl version (heq ▸ hmem)
      obtain ⟨results, hresults⟩ := mapM_total htotal
      exact ⟨_, results, hresults, rfl⟩
  | null | bool | num | str | obj => exact ⟨fun _ => nofun, fun _ => ⟨_, rfl⟩⟩

theorem rewritePackages_ok_iff (base : String) {packages : lib.Map} :
    (∃ out, rewritePackages lib parseURL base packages = .ok out) ↔
      AllFetchable lib parseURL packages := by
  constructor
  · rintro ⟨out, hout⟩ entry hmem
    obtain ⟨result, -, hresult⟩ := mapM_result hout hmem
    obtain ⟨value, hvalue, -⟩ := map_eq_ok.1 hresult
    exact (rewriteVersions_ok_iff base).1 ⟨value, hvalue⟩
  · intro hall
    refine mapM_total fun entry hmem => ?_
    obtain ⟨value, hvalue⟩ := (rewriteVersions_ok_iff base).2 (hall entry hmem)
    exact ⟨_, map_eq_ok.2 ⟨value, hvalue, rfl⟩⟩

variable {base : String} {packages out : lib.Map}

theorem rewritePackages_names (hout : rewritePackages lib parseURL base packages = .ok out) :
    out.map Prod.fst = packages.map Prod.fst := by
  rw [← List.forall₂_eq_eq_eq, List.forall₂_map_left_iff, List.forall₂_map_right_iff]
  refine (mapM_forall₂ hout).flip.imp fun result entry hentry => ?_
  obtain ⟨value, -, rfl⟩ := map_eq_ok.1 hentry
  rfl

theorem canonical_rewriteVersion {item out : lib.Any} (hitem : Value.Canonical item)
    (hout : rewriteVersion lib parseURL base item = .ok out) : Value.Canonical out := by
  cases item with
  | obj version =>
    rw [rewriteVersion] at hout
    split at hout
    · cases hout
      exact hitem
    · next dist url hdist =>
        obtain ⟨moved, -, rfl⟩ := map_eq_ok.1 hout
        exact canonical_setArchiveURL hitem (canonical_archiveURL hitem hdist) "url" moved
  | null | bool | num | str | arr =>
    cases hout
    exact hitem

theorem canonical_rewriteVersions {raw out : lib.Any} (hraw : Value.Canonical raw)
    (hout : rewriteVersions lib parseURL base raw = .ok out) : Value.Canonical out := by
  cases raw with
  | arr versions =>
    obtain ⟨results, hresults, rfl⟩ := map_eq_ok.1 hout
    refine Value.canonical_arr.2 fun result hmem => ?_
    obtain ⟨item, hitem, hrun⟩ := mapM_source hresults hmem
    exact canonical_rewriteVersion (Value.canonical_arr.1 hraw item hitem) hrun
  | null | bool | num | str | obj =>
    cases hout
    exact hraw

theorem canonical_rewritePackages (hpackages : Value.Canonical (.obj packages))
    (hout : rewritePackages lib parseURL base packages = .ok out) : Value.Canonical (.obj out) := by
  obtain ⟨hsorted, hall⟩ := Value.canonical_obj.1 hpackages
  refine Value.canonical_obj.2 ⟨?_, fun result hmem => ?_⟩
  · have hkeys : ∀ fields : lib.Map, Fields.Sorted fields ↔
        (fields.map Prod.fst).Pairwise (· < ·) := fun _ => List.pairwise_map.symm
    rw [hkeys, rewritePackages_names hout, ← hkeys]
    exact hsorted
  · obtain ⟨entry, hentry, hrun⟩ := mapM_source hout hmem
    obtain ⟨value, hvalue, rfl⟩ := map_eq_ok.1 hrun
    exact canonical_rewriteVersions (hall entry hentry) hvalue

theorem lookup_replaceField {other : String} (hne : other ≠ key) (value : lib.Any) (doc : lib.Map) :
    (replaceField lib key value doc).lookup other = doc.lookup other := by
  rw [replaceField]
  split
  · exact Fields.lookup_set_of_ne hne value doc
  · rfl

theorem canonical_replaceField (hdoc : Value.Canonical (.obj doc)) (key : String) {value : lib.Any}
    (hvalue : Value.Canonical value) : Value.Canonical (.obj (replaceField lib key value doc)) := by
  rw [replaceField]
  split
  · exact hdoc.set key hvalue
  · exact hdoc

theorem lookup_rewriteRoot (base : String) (doc : lib.Map)
    (hkey : key ∉ ["metadata-url", "list", "provider-includes", "providers-url", "search"]) :
    (rewriteRoot lib base doc).lookup key = doc.lookup key := by
  simp only [List.mem_cons, List.not_mem_nil, or_false, not_or] at hkey
  obtain ⟨hmetadata, hlist, hincludes, hproviders, hsearch⟩ := hkey
  rw [rewriteRoot, lookup_replaceField hsearch, Fields.lookup_erase, if_neg hlist,
    Fields.lookup_erase, if_neg hincludes, Fields.lookup_erase, if_neg hproviders,
    lookup_replaceField hmetadata]

theorem canonical_rewriteRoot (hdoc : Value.Canonical (.obj doc)) (base : String) :
    Value.Canonical (.obj (rewriteRoot lib base doc)) := by
  have hpointed := canonical_replaceField hdoc "metadata-url"
    (Value.canonical_str (base ++ "/p2/%package%.json"))
  exact canonical_replaceField (((hpointed.erase _).erase _).erase _) _ (Value.canonical_str _)

theorem lookup_pointed (base : String) (doc : lib.Map)
    (hkey : key ∉ ["metadata-url", "list", "provider-includes", "providers-url", "search"]) :
    (pointed lib base doc).lookup key = doc.lookup key := by
  rw [pointed]
  split
  · exact lookup_rewriteRoot base doc hkey
  · rfl

theorem rewriteDocument_ok_iff (base : String) :
    (∃ out, rewriteDocument lib parseURL base (.obj doc) = .ok out) ↔
      ∀ packages, doc.lookup "packages" = some (.obj packages) →
        AllFetchable lib parseURL packages := by
  rw [rewriteDocument, lookup_pointed base doc (by decide)]
  split
  · next packages hpackages =>
      simp only [map_eq_ok]
      constructor
      · rintro ⟨out, rewritten, hrewritten, -⟩ found hfound
        rw [hpackages] at hfound
        cases hfound
        exact (rewritePackages_ok_iff base).1 ⟨rewritten, hrewritten⟩
      · intro hall
        obtain ⟨rewritten, hrewritten⟩ :=
          (rewritePackages_ok_iff base).2 (hall packages hpackages)
        exact ⟨_, rewritten, hrewritten, rfl⟩
  · next hnone =>
      exact ⟨fun _ packages hpackages => absurd hpackages (hnone packages), fun _ => ⟨_, rfl⟩⟩

structure Rewritten (doc root : lib.Map) : Prop where
  canonical : Value.Canonical (.obj root)
  inventory : ∀ key ∈ inventoryKeys, root.lookup key = doc.lookup key
  inlined : inlinePackages lib root = inlinePackages lib doc

theorem rewriteDocument_spec {out : lib.Any} (hdoc : Value.Canonical (.obj doc))
    (hout : rewriteDocument lib parseURL base (.obj doc) = .ok out) :
    ∃ root, out = .obj root ∧ Rewritten doc root := by
  have hpointed : Value.Canonical (.obj (pointed lib base doc)) := by
    rw [pointed]
    split
    · exact canonical_rewriteRoot hdoc base
    · exact hdoc
  have hinventory : ∀ key ∈ inventoryKeys, (pointed lib base doc).lookup key = doc.lookup key := by
    intro key hkey
    rcases List.mem_pair.1 hkey with rfl | rfl <;> exact lookup_pointed base doc (by decide)
  have hlookup : (pointed lib base doc).lookup "packages" = doc.lookup "packages" :=
    lookup_pointed base doc (by decide)
  rw [rewriteDocument, hlookup] at hout
  split at hout
  · next packages hpackages =>
      obtain ⟨rewritten, hrewritten, rfl⟩ := map_eq_ok.1 hout
      refine ⟨_, rfl, ?_, fun key hkey => ?_, ?_⟩
      · exact hpointed.set "packages"
          (canonical_rewritePackages (hdoc.lookup hpackages) hrewritten)
      · have hne : key ≠ "packages" := by
          rintro rfl
          exact absurd hkey (by decide)
        rw [Fields.lookup_set_of_ne hne, hinventory key hkey]
      · rw [inlinePackages, inlinePackages, Fields.lookup_set_self, hpackages]
        exact rewritePackages_names hrewritten
  · cases hout
    exact ⟨_, rfl, hpointed, hinventory, by rw [inlinePackages, inlinePackages, hlookup]⟩

/-! ## The merged root -/

def roots (lib : JsonLib) (parts : List GroupPart) : List lib.Any :=
  parts.map fun part => .obj (rootOf lib part)

theorem mergeRoot_eq {feed : Feed} (hparts : ∀ part ∈ first :: rest, WellFormed lib part) :
    mergeRoot lib parseURL feed (first :: rest) =
      (rewriteDocument lib parseURL (feedBase feed)
        (.obj (mergeInventory lib (rootOf lib first) (roots lib (first :: rest))))).map
          lib.marshal := by
  have hread : ∀ part ∈ first :: rest, readRoot lib part = .ok (.obj (rootOf lib part)) := by
    intro part hmem
    rw [readRoot, JsonLib.readMap, (hparts part hmem).1]
  have hfirst := hparts first List.mem_cons_self
  have hcanonical := canonical_mergeInventory (Value.canonical_unmarshalMap _ hfirst.1)
    (roots lib (first :: rest))
  rw [mergeRoot, hread first List.mem_cons_self, mapM_eq_map hread]
  simp only [bind, Except.bind, mergedRoot, rewriteMetadata, JsonLib.readMap]
  rw [← roots, JsonLib.marshal, Value.unmarshalMap_marshal _ hcanonical]
  dsimp only
  cases rewriteDocument lib parseURL (feedBase feed)
    (.obj (mergeInventory lib (rootOf lib first) (roots lib (first :: rest)))) <;> rfl

theorem hasList_of_wellFormed {part : GroupPart} (hpart : WellFormed lib part)
    (hkey : key ∈ inventoryKeys) :
    hasList (rootOf lib part) key = ((rootOf lib part).lookup key).isSome := by
  rw [hasList]
  cases hlookup : (rootOf lib part).lookup key with
  | none => rfl
  | some value =>
    obtain ⟨names, rfl⟩ := hpart.2 key hkey value hlookup
    rfl

theorem all_hasList_iff (hparts : ∀ part ∈ parts, WellFormed lib part)
    (hkey : key ∈ inventoryKeys) :
    (∀ member ∈ roots lib parts, hasList member.fields key = true) ↔ AllCarry lib parts key := by
  rw [roots, List.forall_mem_map]
  refine forall₂_congr fun part hmem => ?_
  rw [← hasList_of_wellFormed (hparts part hmem) hkey]
  rfl

theorem covers_merged_iff (fits : String → String → Prop)
    (hparts : ∀ part ∈ parts, WellFormed lib part) {inlined : List String}
    (hinventory : ∀ key ∈ inventoryKeys, root.lookup key = inventory (roots lib parts) key)
    (hinlined : inlinePackages lib root = inlined) (name : String) :
    Covers lib fits root name ↔
      (∀ key ∈ inventoryKeys, ¬ AllCarry lib parts key) ∨
      (AllCarry lib parts "available-packages" ∧
        ∃ part ∈ parts, name ∈ listed lib (rootOf lib part) "available-packages") ∨
      (AllCarry lib parts "available-package-patterns" ∧
        ∃ part ∈ parts, ∃ pattern ∈ listed lib (rootOf lib part) "available-package-patterns",
          fits pattern name) ∨
      name ∈ inlined := by
  have hopen : (∀ key ∈ inventoryKeys, root.lookup key = none) ↔
      ∀ key ∈ inventoryKeys, ¬ AllCarry lib parts key := by
    refine forall₂_congr fun key hkey => ?_
    rw [hinventory key hkey, ← all_hasList_iff hparts hkey, ← List.all_eq_true, inventory]
    split
    · next hall => simp [hall]
    · next hsome => simp [hsome]
  have hlisted : ∀ key ∈ inventoryKeys, ∀ text, text ∈ listed lib root key ↔
      AllCarry lib parts key ∧ ∃ part ∈ parts, text ∈ listed lib (rootOf lib part) key := by
    intro key hkey text
    rw [mem_listed_of_inventory (hinventory key hkey), all_hasList_iff hparts hkey, roots]
    simp only [List.mem_map, exists_exists_and_eq_and, Value.fields]
  rw [Covers, hopen, hlisted _ (by decide), hinlined]
  simp only [hlisted "available-package-patterns" (by decide)]
  refine or_congr_right (or_congr_right (or_congr_left ?_))
  constructor
  · rintro ⟨pattern, ⟨hall, part, hpart, hmem⟩, hfits⟩
    exact ⟨hall, part, hpart, pattern, hmem, hfits⟩
  · rintro ⟨hall, part, hpart, pattern, hmem, hfits⟩
    exact ⟨pattern, ⟨hall, part, hpart, hmem⟩, hfits⟩

theorem lookup_packages_mergeInventory (doc : lib.Map) (members : List lib.Any) :
    (mergeInventory lib doc members).lookup "packages" = doc.lookup "packages" := by
  rw [lookup_mergeInventory, if_neg (by decide)]

theorem mergeRoot_spec {feed : Feed} (hparts : ∀ part ∈ first :: rest, WellFormed lib part)
    {body : Bytes} (hbody : mergeRoot lib parseURL feed (first :: rest) = .ok body) :
    ∃ root, Value.unmarshalMap lib.numbers body = some (.obj root) ∧
      (∀ key ∈ inventoryKeys, root.lookup key = inventory (roots lib (first :: rest)) key) ∧
      inlinePackages lib root = inlinePackages lib (rootOf lib first) := by
  rw [mergeRoot_eq hparts] at hbody
  obtain ⟨out, hout, rfl⟩ := map_eq_ok.1 hbody
  have hfirst := Value.canonical_unmarshalMap _ (hparts first List.mem_cons_self).1
  obtain ⟨root, rfl, rewritten⟩ :=
    rewriteDocument_spec (canonical_mergeInventory hfirst (roots lib (first :: rest))) hout
  refine ⟨root, Value.unmarshalMap_marshal _ rewritten.canonical, fun key hkey => ?_, ?_⟩
  · rw [rewritten.inventory key hkey, lookup_mergeInventory, if_pos hkey]
  · rw [rewritten.inlined, inlinePackages, lookup_packages_mergeInventory, ← inlinePackages]

section

variable {fits : String → String → Prop} {feed : Feed} {first : GroupPart} {rest : List GroupPart}
  (hparts : ∀ part ∈ first :: rest, WellFormed lib part)

include hparts

theorem reconcilable_of_covers (covers : CoversMembers lib parseURL fits feed (first :: rest)) :
    Reconcilable lib parseURL fits first (first :: rest) := by
  obtain ⟨body, root, hbody, hroot, hcovers, hinline⟩ := covers
  obtain ⟨found, hfound, hinventory, hinlined⟩ := mergeRoot_spec hparts hbody
  rw [hroot] at hfound
  cases hfound
  have hmerged := covers_merged_iff fits hparts hinventory hinlined
  refine ⟨?_, fun part hmem name hname => hinlined ▸ hinline part hmem name hname, ?_, ?_⟩
  · rw [mergeRoot_eq hparts] at hbody
    obtain ⟨out, hout, -⟩ := map_eq_ok.1 hbody
    have hall := (rewriteDocument_ok_iff _).1 ⟨out, hout⟩
    rwa [lookup_packages_mergeInventory] at hall
  · intro hlists hpatterns part hmem pattern hpattern name hfits
    rcases (hmerged name).1 (hcovers part hmem name (.inr (.inr (.inl ⟨pattern, hpattern, hfits⟩))))
      with hopen | ⟨-, hlisted⟩ | ⟨hall, -⟩ | hname
    · exact absurd hlists (hopen _ (by decide))
    · exact .inl hlisted
    · exact absurd hall hpatterns
    · exact .inr hname
  · intro hpatterns hlists part hmem name hname
    rcases (hmerged name).1 (hcovers part hmem name (.inr (.inl hname)))
      with hopen | ⟨hall, -⟩ | ⟨-, hmatched⟩ | hname
    · exact absurd hpatterns (hopen _ (by decide))
    · exact absurd hall hlists
    · exact .inl hmatched
    · exact .inr hname

theorem covers_of_reconcilable
    (reconcilable : Reconcilable lib parseURL fits first (first :: rest)) :
    CoversMembers lib parseURL fits feed (first :: rest) := by
  obtain ⟨out, hout⟩ := (rewriteDocument_ok_iff (feedBase feed)).2
    ((lookup_packages_mergeInventory (rootOf lib first) (roots lib (first :: rest))).symm ▸
      reconcilable.archives)
  have hbody : mergeRoot lib parseURL feed (first :: rest) = .ok (lib.marshal out) := by
    rw [mergeRoot_eq hparts, hout]
    rfl
  obtain ⟨root, hroot, hinventory, hinlined⟩ := mergeRoot_spec hparts hbody
  have hmerged := covers_merged_iff fits hparts hinventory hinlined
  refine ⟨_, root, hbody, hroot, fun part hmem name hcovers => (hmerged name).2 ?_,
    fun part hmem name hname => hinlined ▸ reconcilable.inlined part hmem name hname⟩
  have hneither : ¬ AllCarry lib (first :: rest) "available-packages" →
      ¬ AllCarry lib (first :: rest) "available-package-patterns" →
        ∀ key ∈ inventoryKeys, ¬ AllCarry lib (first :: rest) key := by
    intro hlists hpatterns key hkey
    rcases List.mem_pair.1 hkey with rfl | rfl
    · exact hlists
    · exact hpatterns
  rcases hcovers with hopen | hname | ⟨pattern, hpattern, hfits⟩ | hname
  · refine .inl fun key hkey hall => ?_
    have hsome := hall part hmem
    rw [hopen key hkey] at hsome
    cases hsome
  · by_cases hlists : AllCarry lib (first :: rest) "available-packages"
    · exact .inr (.inl ⟨hlists, part, hmem, hname⟩)
    · by_cases hpatterns : AllCarry lib (first :: rest) "available-package-patterns"
      · rcases reconcilable.packages hpatterns hlists part hmem name hname with hmatched | hinline
        · exact .inr (.inr (.inl ⟨hpatterns, hmatched⟩))
        · exact .inr (.inr (.inr hinline))
      · exact .inl (hneither hlists hpatterns)
  · by_cases hpatterns : AllCarry lib (first :: rest) "available-package-patterns"
    · exact .inr (.inr (.inl ⟨hpatterns, part, hmem, pattern, hpattern, hfits⟩))
    · by_cases hlists : AllCarry lib (first :: rest) "available-packages"
      · rcases reconcilable.patterns hlists hpatterns part hmem pattern hpattern name hfits
          with hlisted | hinline
        · exact .inr (.inl ⟨hlists, hlisted⟩)
        · exact .inr (.inr (.inr hinline))
      · exact .inl (hneither hlists hpatterns)
  · exact .inr (.inr (.inr (reconcilable.inlined part hmem name hname)))

end

/-- The root of a group covers what its members cover and has their inline packages if and only if
their roots can be told as one. -/
theorem root_covers_iff (fits : String → String → Prop) (feed : Feed) (first : GroupPart)
    (rest : List GroupPart) (hparts : ∀ part ∈ first :: rest, WellFormed lib part) :
    CoversMembers lib parseURL fits feed (first :: rest) ↔
      Reconcilable lib parseURL fits first (first :: rest) :=
  ⟨reconcilable_of_covers hparts, covers_of_reconcilable hparts⟩

end Merging

/-! ## Two groups that hide packages -/

def absoluteURL (url : String) : Except String Url :=
  .ok ⟨true, url⟩

def fitsStar (pattern name : String) : Prop :=
  Text.hasPrefix name (Text.trimSuffix pattern "*") = true

def allPackages : Feed where
  name := "all"
  format := "composer"
  externalURL := "https://registry.example"

def member (feed : String) (root : plainLib.Map) : GroupPart :=
  ⟨feed, plainLib.marshal (.obj root)⟩

section Member

variable {root : plainLib.Map} (hroot : Value.Canonical (.obj root)) (feed : String)

include hroot

theorem rootOf_member : rootOf plainLib (member feed root) = root := by
  rw [rootOf, member, JsonLib.marshal, Value.unmarshalMap_marshal _ hroot]
  rfl

theorem wellFormed_member
    (hlists : ∀ key ∈ inventoryKeys, ∀ value, root.lookup key = some value →
      ∃ names : List String, value = .arr (names.map .str)) :
    WellFormed plainLib (member feed root) := by
  rw [WellFormed, rootOf_member hroot feed]
  exact ⟨Value.unmarshalMap_marshal _ hroot, hlists⟩

end Member

def listing (name : String) : plainLib.Map :=
  [("available-packages", .arr [.str name])]

def matching : plainLib.Map :=
  [("available-package-patterns", .arr [.str "acme/*"]),
    ("available-packages", .arr [.str "acme/one"])]

def inlining : plainLib.Map :=
  [("packages", .obj [("acme/tool", .arr [])])]

theorem canonical_listing (name : String) : Value.Canonical (.obj (listing name)) := by
  simp [listing, Value.Canonical, Value.CanonicalItems, Value.CanonicalFields, Fields.Sorted]

theorem canonical_matching : Value.Canonical (.obj matching) := by
  simp only [matching, Value.Canonical, Value.CanonicalItems, Value.CanonicalFields, Fields.Sorted]
  decide

theorem canonical_inlining : Value.Canonical (.obj inlining) := by
  simp [inlining, Value.Canonical, Value.CanonicalItems, Value.CanonicalFields, Fields.Sorted]

theorem rootOf_listing (feed name : String) :
    rootOf plainLib (member feed (listing name)) = listing name :=
  rootOf_member (canonical_listing name) feed

theorem rootOf_matching (feed : String) : rootOf plainLib (member feed matching) = matching :=
  rootOf_member canonical_matching feed

theorem rootOf_inlining (feed : String) : rootOf plainLib (member feed inlining) = inlining :=
  rootOf_member canonical_inlining feed

theorem wellFormed_listing (feed name : String) :
    WellFormed plainLib (member feed (listing name)) := by
  refine wellFormed_member (canonical_listing name) feed fun key hkey value hvalue => ?_
  rcases List.mem_pair.1 hkey with rfl | rfl
  · cases hvalue
    exact ⟨[name], rfl⟩
  · cases hvalue

theorem wellFormed_matching (feed : String) : WellFormed plainLib (member feed matching) := by
  refine wellFormed_member canonical_matching feed fun key hkey value hvalue => ?_
  rcases List.mem_pair.1 hkey with rfl | rfl
  · cases hvalue
    exact ⟨["acme/one"], rfl⟩
  · cases hvalue
    exact ⟨["acme/*"], rfl⟩

theorem wellFormed_inlining (feed : String) : WellFormed plainLib (member feed inlining) := by
  refine wellFormed_member canonical_inlining feed fun key hkey value hvalue => ?_
  rcases List.mem_pair.1 hkey with rfl | rfl <;> cases hvalue

theorem wellFormed_pair {a b : GroupPart} (ha : WellFormed plainLib a)
    (hb : WellFormed plainLib b) :
    ∀ part ∈ [a, b], WellFormed plainLib part :=
  List.forall_mem_cons.2 ⟨ha, List.forall_mem_singleton.2 hb⟩

/-- Two members that list their packages. -/
theorem root_covers_lists :
    (∀ part ∈ [member "one" (listing "acme/a"), member "two" (listing "beta/b")],
      WellFormed plainLib part) ∧
    CoversMembers plainLib absoluteURL fitsStar allPackages
      [member "one" (listing "acme/a"), member "two" (listing "beta/b")] := by
  have hparts := wellFormed_pair (wellFormed_listing "one" "acme/a")
    (wellFormed_listing "two" "beta/b")
  refine ⟨hparts, (root_covers_iff fitsStar allPackages _ _ hparts).2 ⟨?_, ?_, ?_, ?_⟩⟩
  · intro packages hpackages
    rw [rootOf_listing] at hpackages
    cases hpackages
  · intro part hmem name hinline
    rcases List.mem_pair.1 hmem with rfl | rfl <;> rw [rootOf_listing] at hinline <;> cases hinline
  · intro _ _ part hmem pattern hpattern
    rcases List.mem_pair.1 hmem with rfl | rfl <;> rw [rootOf_listing] at hpattern <;>
      cases hpattern
  · intro hpatterns
    have hsome := hpatterns _ List.mem_cons_self
    rw [rootOf_listing] at hsome
    cases hsome

/-- A member's pattern is lost because the other has none, and so is the package within the second
member's root. -/
theorem hidden_packages :
    ((∀ part ∈ [member "one" matching, member "two" (listing "beta/b")],
        WellFormed plainLib part) ∧
      ¬ CoversMembers plainLib absoluteURL fitsStar allPackages
        [member "one" matching, member "two" (listing "beta/b")]) ∧
    (∀ part ∈ [member "one" (listing "acme/a"), member "tools" inlining],
        WellFormed plainLib part) ∧
      ¬ CoversMembers plainLib absoluteURL fitsStar allPackages
        [member "one" (listing "acme/a"), member "tools" inlining] := by
  have hmatching := wellFormed_pair (wellFormed_matching "one") (wellFormed_listing "two" "beta/b")
  have hinlining := wellFormed_pair (wellFormed_listing "one" "acme/a")
    (wellFormed_inlining "tools")
  refine ⟨⟨hmatching, fun covers => ?_⟩, hinlining, fun covers => ?_⟩
  · have reconcilable := reconcilable_of_covers hmatching covers
    have hlists : AllCarry plainLib [member "one" matching, member "two" (listing "beta/b")]
        "available-packages" := by
      intro part hmem
      rcases List.mem_pair.1 hmem with rfl | rfl
      · rw [rootOf_matching]
        rfl
      · rw [rootOf_listing]
        rfl
    have hpatterns : ¬ AllCarry plainLib [member "one" matching, member "two" (listing "beta/b")]
        "available-package-patterns" := by
      intro hall
      have hsome := hall _ (List.mem_cons_of_mem _ List.mem_cons_self)
      rw [rootOf_listing] at hsome
      cases hsome
    -- `acme/two` matches the pattern and is listed by nobody
    have hfits : fitsStar "acme/*" "acme/two" := by
      rw [fitsStar]
      decide +kernel
    rcases reconcilable.patterns hlists hpatterns _ List.mem_cons_self "acme/*"
        (by rw [rootOf_matching]; exact List.mem_cons_self) "acme/two" hfits
      with ⟨part, hmem, hname⟩ | hname
    · rcases List.mem_pair.1 hmem with rfl | rfl
      · rw [rootOf_matching] at hname
        exact absurd hname (by decide)
      · rw [rootOf_listing] at hname
        exact absurd hname (by decide)
    · rw [rootOf_matching] at hname
      exact absurd hname (by decide)
  · have hname := (reconcilable_of_covers hinlining covers).inlined (member "tools" inlining)
      (List.mem_cons_of_mem _ List.mem_cons_self) "acme/tool"
      (by rw [rootOf_inlining]; exact List.mem_cons_self)
    rw [rootOf_listing] at hname
    cases hname

end FondacoFormal.Formats.Composer
