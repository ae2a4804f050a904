import FondacoFormal.Formats.Composer

/-!
# Minified package documents

In a document marked as minified an entry of a package holds what changed since the entry before
it; what it means is its expansion.
-/

namespace FondacoFormal.Formats.Composer

open Library Api Server

/-! ## Package documents -/

abbrev Entry : Type := List (String × Json)

/-- What an entry has of the keys that are read it has once and in their spelling. -/
def Plain (entry : Entry) : Prop :=
  ∀ key ∈ ["version", "license", "time", "dist"], filling key entry = (entry.lookup key).toList

/-- A package document: the entries of its packages, and its other fields around them. -/
structure P2 where
  before : List (String × Json)
  packages : List (String × List Entry)
  after : List (String × Json)
  other : ∀ field ∈ before ++ after, foldName field.1 ≠ "packages"

namespace P2

def packageJson (package : String × List Entry) : String × Json :=
  (package.1, .arr (package.2.map .obj))

def json (doc : P2) : Json :=
  .obj (doc.before ++ ("packages", .obj (doc.packages.map packageJson)) :: doc.after)

/-- The entries of a package; a name that comes later is found first. -/
def entries (doc : P2) (name : String) : List Entry :=
  (doc.packages.reverse.lookup name).getD []

def isMinified (doc : P2) : Bool :=
  match (doc.before ++ doc.after).lookup "minified" with
  | some (.str s) => s = "composer/2.0"
  | _ => false

end P2

/-! ## Expansion -/

def isUnset : Json → Bool
  | .str s => s = "__unset"
  | _ => false

/-- The value of a key in the expansion of an entry, which is given with those before it, last
first: what the entry does not have is that of the entry before, and what it unsets is gone. -/
def expanded (minified : Bool) (key : String) : List Entry → Option Json
  | [] => none
  | [first] => first.lookup key
  | entry :: next :: before =>
    match entry.lookup key with
    | none => if minified then expanded minified key (next :: before) else none
    | some value => if minified && isUnset value then none else some value

/-- What policies are told of some values of one key: `none` if they cannot be read. -/
def told (key : String) (values : List Json) : Option State.StringMap :=
  if key = "license" then (values.foldl fillTexts (some [])).map licenseOf
  else if key = "time" then (values.foldl fillText (some "")).map publishedAt
  else (values.foldl fillDist (some "")).map checksumOf

def toldKeys : List String := ["license", "time", "dist"]

/-- What policies are told of the values of all keys. -/
def declared (values : String → List Json) : Option State.StringMap :=
  (toldKeys.mapM fun key => told key (values key)).map List.flatten

/-- The entry says what its expansion says of a key: it is not minified or the first, or it has
the key and does not unset it, or what is carried to it is nothing that policies are told. -/
def Repeats (minified : Bool) (key : String) : List Entry → Prop
  | entry :: next :: before => minified = true →
    match entry.lookup key with
    | some value => isUnset value = false
    | none => told key (expanded minified key (next :: before)).toList = some []
  | _ => True

section Told

variable {minified : Bool} {key : String} {entry : Entry} {before : List Entry}
  {map : State.StringMap}

theorem told_unset {value : Json} (hvalue : isUnset value = true) : told key [value] ≠ some [] := by
  cases value with
  | str s =>
    obtain rfl : s = "__unset" := by simpa [isUnset] using hvalue
    unfold told
    split_ifs <;> simp [fillTexts, fillText, fillDist, publishedAt]
  | _ => cases hvalue

/-- As long as the entry can be read, its own values and those of its expansion say the same
exactly if it repeats what matters. -/
theorem told_expanded_iff (hown : told key (entry.lookup key).toList = some map) :
    told key (expanded minified key (entry :: before)).toList = some map ↔
      Repeats minified key (entry :: before) := by
  have hnothing : told key [] = some [] := by
    unfold told
    split_ifs <;> rfl
  cases before with
  | nil => exact iff_of_true hown trivial
  | cons next before =>
    cases hmin : minified with
    | false =>
      refine iff_of_true ?_ nofun
      rw [expanded]
      cases hlookup : entry.lookup key with
      | none => simpa [hlookup] using hown
      | some value => simpa [hlookup] using hown
    | true =>
      rw [expanded, Repeats]
      cases hlookup : entry.lookup key with
      | none =>
        rw [hlookup, Option.toList_none, hnothing] at hown
        cases hown
        simp
      | some value =>
        rw [hlookup] at hown
        by_cases hunset : isUnset value = true
        · have hdiffers : some map ≠ some [] := hown ▸ told_unset hunset
          simpa [hunset, hnothing] using hdiffers.symm
        · simpa [hunset] using hown

/-- The name under which policies are told of a key. -/
def label (key : String) : String :=
  if key = "license" then "license" else if key = "time" then "published_at" else "checksum"

theorem told_label {values : List Json} (htold : told key values = some map) :
    ∀ pair ∈ map, pair.1 = label key := by
  unfold told at htold
  unfold label
  split_ifs at htold ⊢
  all_goals
    obtain ⟨read, -, rfl⟩ := Option.map_eq_some_iff.1 htold
    simp only [licenseOf, publishedAt, checksumOf]
    split <;> simp

theorem told_of_declared {values : String → List Json} (hmap : declared values = some map) :
    ∀ key ∈ toldKeys, told key (values key) = some (map.filter (·.1 = label key)) := by
  obtain ⟨parts, hparts, rfl⟩ := Option.map_eq_some_iff.1 hmap
  simp only [toldKeys, List.mapM_cons, List.mapM_nil, Option.bind_eq_bind, Option.pure_def,
    Option.bind_eq_some_iff, Option.some.injEq] at hparts
  obtain ⟨license, hlicense, _, ⟨time, htime, _, ⟨dist, hdist, _, rfl, rfl⟩, rfl⟩, rfl⟩ := hparts
  have hown {key : String} {part : State.StringMap} (hpart : told key (values key) = some part)
      (other : String) : part.filter (·.1 = label other) =
        if label key = label other then part else [] := by
    split
    · next heq =>
        refine List.filter_eq_self.2 fun pair hmem => ?_
        exact decide_eq_true ((told_label hpart pair hmem).trans heq)
    · next hne =>
        refine List.filter_eq_nil_iff.2 fun pair hmem => ?_
        rw [told_label hpart pair hmem]
        simpa using hne
  simp only [toldKeys, List.forall_mem_cons, List.flatten_cons, List.flatten_nil, List.append_nil,
    List.filter_append, hown hlicense, hown htime, hown hdist]
  simp [hlicense, htime, hdist, label]

theorem declared_iff {own meant : String → List Json} (hown : declared own = some map) :
    declared meant = some map ↔ ∀ key ∈ toldKeys, told key (meant key) = told key (own key) := by
  constructor
  · intro hmeant key hkey
    rw [told_of_declared hmeant key hkey, told_of_declared hown key hkey]
  · intro hsame
    simp only [toldKeys, List.forall_mem_cons] at hsame
    rw [← hown]
    simp [declared, toldKeys, hsame]

theorem declared_of_readFields {values : String → List Json} {v : VersionDoc}
    (hread : readFields values = some v) :
    declared values = some (licenseOf v.license ++ publishedAt v.time ++ checksumOf v.shasum) := by
  simp only [readFields, Option.bind_eq_bind, Option.bind_eq_some_iff, Option.pure_def,
    Option.some.injEq] at hread
  obtain ⟨version, -, license, hlicense, time, htime, shasum, hshasum, rfl⟩ := hread
  simp [declared, toldKeys, told, hlicense, htime, hshasum]

end Told

namespace P2

def readEntry (entry : Entry) : Option VersionDoc :=
  readVersion (.obj entry)

def readPackage (package : String × List Entry) : Option (String × List VersionDoc) :=
  (package.2.mapM readEntry).map (package.1, ·)

theorem readPackageDoc_json {doc : P2} {body : Bytes}
    (hbody : Json.unmarshal body = some doc.json) :
    readPackageDoc body = (doc.packages.mapM readPackage).map List.reverse := by
  have hother {fields : List (String × Json)}
      (hfields : ∀ field ∈ fields, field ∈ doc.before ++ doc.after) :
      fields.filter (fun field => decide (foldName field.1 = "packages")) = [] :=
    List.filter_eq_nil_iff.2 fun field hmem => by simpa using doc.other field (hfields field hmem)
  have hname : foldName "packages" = "packages" := by decide +kernel
  have hfilling : filling "packages" (doc.before ++
      ("packages", .obj (doc.packages.map packageJson)) :: doc.after) =
        [.obj (doc.packages.map packageJson)] := by
    rw [filling, List.filter_append, List.filter_cons_of_pos (by simpa using hname),
      hother (by simp_all), hother (by simp_all)]
    rfl
  have hread :
    (fun field : String × Json => (readVersions field.2).map (field.1, ·)) ∘ packageJson =
      readPackage := by
    funext package
    simp only [Function.comp_apply, packageJson, readVersions, List.mapM_map]
    rfl
  rw [readPackageDoc, hbody]
  simp only [json, hfilling, List.foldl_cons, List.foldl_nil, fillPackages, List.mapM_map, hread]
  cases doc.packages.mapM readPackage <;> simp

theorem lookup_read {packages : List (String × List Entry)} {read : PackageDoc}
    (hread : List.Forall₂ (fun package p => readPackage package = some p) packages read)
    {name : String} {entries : List Entry} (hname : packages.lookup name = some entries) :
    ∃ versions, read.lookup name = some versions ∧
      List.Forall₂ (fun entry v => readEntry entry = some v) entries versions := by
  induction hread with
  | nil => cases hname
  | cons hfirst _ ih =>
    obtain ⟨versions, hversions, rfl⟩ := Option.map_eq_some_iff.1 hfirst
    rw [Fields.lookup_cons] at hname ⊢
    split at hname
    · next heq =>
        cases hname
        exact ⟨versions, if_pos heq, Fallible.mapM_forall₂_some hversions⟩
    · next hne =>
        rw [if_neg hne]
        exact ih hname

/-- The entry lists this version. -/
def lists (version : String) (entry : Entry) : Bool :=
  (readEntry entry).map VersionDoc.version = some version

theorem find_listed {entries : List Entry} {versions : List VersionDoc} {version : String} {i : Nat}
    (hread : List.Forall₂ (fun entry v => readEntry entry = some v) entries versions)
    (hlisted : entries.findIdx? (lists version) = some i) :
    versions.find? (fun v => v.version = version) = entries[i]?.bind readEntry := by
  induction hread generalizing i with
  | nil => simp at hlisted
  | @cons entry v _ _ hfirst _ ih =>
    rw [List.findIdx?_cons, lists, hfirst] at hlisted
    by_cases hversion : v.version = version
    · simp only [Option.map_some, hversion, decide_true, ↓reduceIte, Option.some.injEq] at hlisted
      simp [← hlisted, hversion, hfirst]
    · simp only [Option.map_some, Option.some.injEq, hversion, decide_false, Bool.false_eq_true,
        ↓reduceIte, Option.map_eq_some_iff] at hlisted
      obtain ⟨j, hj, rfl⟩ := hlisted
      simp [hversion, ih hj]

end P2

/-! ## Extraction -/

section Extraction

variable {doc : P2} {body : Bytes} {coord : PackageCoordinate} {i : Nat}

theorem extractMetadata_eq {packages : PackageDoc}
    (hbody : Json.unmarshal body = some doc.json) (hread : readPackageDoc body = some packages)
    (hversion : coord.version ≠ "")
    (hlisted : (doc.entries coord.name).findIdx? (P2.lists coord.version) = some i)
    (cause : Bytes → String) :
    ∃ entry map, (doc.entries coord.name)[i]? = some entry ∧
      declared (fun key => filling key entry) = some map ∧
      extractMetadata cause coord body = .ok (("ecosystem", "Packagist") :: map) := by
  have hpackages := hread
  rw [P2.readPackageDoc_json hbody] at hpackages
  obtain ⟨read, hmapM, rfl⟩ := Option.map_eq_some_iff.1 hpackages
  have hpairs := List.forall₂_reverse_iff.2 (Fallible.mapM_forall₂_some hmapM)
  cases hname : doc.packages.reverse.lookup coord.name with
  | none => simp [P2.entries, hname] at hlisted
  | some entries =>
    obtain ⟨versions, hlookup, hversions⟩ := P2.lookup_read hpairs hname
    have hentries : doc.entries coord.name = entries := by simp [P2.entries, hname]
    rw [hentries] at hlisted ⊢
    have hfind := P2.find_listed hversions hlisted
    obtain ⟨hlt, hlists, -⟩ := List.findIdx?_eq_some_iff_getElem.1 hlisted
    obtain ⟨own, hown, -⟩ := Option.map_eq_some_iff.1 (of_decide_eq_true hlists)
    have hchosen : entries[i]?.bind P2.readEntry = some own := by
      rw [List.getElem?_eq_getElem hlt, Option.bind_some, hown]
    refine ⟨entries[i], _, List.getElem?_eq_getElem hlt, declared_of_readFields hown, ?_⟩
    rw [extractMetadata, hread]
    simp [hversion, hlookup, hfind.trans hchosen]

/-- The entry and those before it, last first. -/
def P2.upTo (doc : P2) (name : String) (i : Nat) : List Entry :=
  ((doc.entries name).take (i + 1)).reverse

/-- `ExtractMetadata` reports what the expansion of a version's entry declares exactly when the
document can be read and the entry repeats what its expansion says of license, time and dist. -/
theorem extracts_expanded_iff (hbody : Json.unmarshal body = some doc.json)
    (hversion : coord.version ≠ "")
    (hlisted : (doc.entries coord.name).findIdx? (P2.lists coord.version) = some i)
    (hplain : ∀ entry ∈ doc.entries coord.name, Plain entry) (cause : Bytes → String) :
    (∃ map, declared (fun key =>
          (expanded doc.isMinified key (doc.upTo coord.name i)).toList) = some map ∧
        extractMetadata cause coord body = .ok (("ecosystem", "Packagist") :: map)) ↔
      (readPackageDoc body).isSome ∧
        ∀ key ∈ toldKeys, Repeats doc.isMinified key (doc.upTo coord.name i) := by
  cases hread : readPackageDoc body with
  | none => simp [extractMetadata, hread]
  | some packages =>
    obtain ⟨entry, map, hentry, hmap, hextract⟩ :=
      extractMetadata_eq hbody hread hversion hlisted cause
    have hupTo : doc.upTo coord.name i = entry :: ((doc.entries coord.name).take i).reverse := by
      rw [P2.upTo, List.take_add_one, hentry, List.reverse_append]
      rfl
    have hkeys : ∀ key ∈ toldKeys, filling key entry = (entry.lookup key).toList := fun key hkey =>
      hplain entry (List.mem_of_getElem? hentry) key (List.mem_cons_of_mem _ hkey)
    rw [hextract, hupTo]
    simp only [Except.ok.injEq, List.cons.injEq, true_and, Option.isSome_some]
    rw [exists_eq_right', declared_iff hmap]
    refine forall₂_congr fun key hkey => ?_
    have htold := told_of_declared hmap key hkey
    rw [hkeys key hkey] at htold ⊢
    rw [htold, told_expanded_iff htold]

end Extraction

def twoVersions (second : Entry) : P2 where
  before := []
  packages := [("a/b", [
    [("version", .str "2"), ("license", .arr [.str "MIT"]), ("time", .str "2026-01-01T00:00:00Z")],
    second])]
  after := [("minified", .str "composer/2.0")]
  other := by decide +kernel

def versionOne : PackageCoordinate := ⟨"composer", "a/b", "1"⟩

/-- An entry that repeats license and time declares what its expansion does. -/
theorem extracts_repeated :
    let doc := twoVersions [("version", .str "1"), ("license", .arr [.str "GPL-3.0"]),
      ("time", .str "2025-01-01T00:00:00Z")]
    Json.unmarshal doc.json.marshal = some doc.json ∧
      ∃ map, declared (fun key => (expanded doc.isMinified key (doc.upTo "a/b" 1)).toList) =
          some map ∧
        extractMetadata (fun _ => "") versionOne doc.json.marshal =
          .ok (("ecosystem", "Packagist") :: map) := by
  intro doc
  have hbody : Json.unmarshal doc.json.marshal = some doc.json :=
    Json.unmarshal_marshal (by decide +kernel)
  refine ⟨hbody, (@extracts_expanded_iff doc _ versionOne 1 hbody (by decide)
    (by decide +kernel) ?_ _).2 ⟨by decide +kernel, ?_⟩⟩
  · rintro entry (_ | ⟨_, _ | ⟨_, ⟨⟩⟩⟩) key hkey
    all_goals
      simp only [List.mem_cons, List.not_mem_nil, or_false] at hkey
      rcases hkey with rfl | rfl | rfl | rfl <;> rfl
  · intro key hkey
    simp only [toldKeys, List.mem_cons, List.not_mem_nil, or_false] at hkey
    rcases hkey with rfl | rfl | rfl
    · exact fun _ => rfl
    · exact fun _ => rfl
    · exact fun _ => rfl

/-- An entry of a minified document that keeps the license of the one before it declares none. -/
theorem carried_license_unseen :
    let doc := twoVersions [("version", .str "1")]
    declared (fun key => (expanded doc.isMinified key (doc.upTo "a/b" 1)).toList) =
        some [("license", "MIT"), ("published_at", "2026-01-01T00:00:00Z")] ∧
      (extractMetadata (fun _ => "") versionOne doc.json.marshal).toOption =
        some [("ecosystem", "Packagist")] := by
  decide +kernel

end FondacoFormal.Formats.Composer
