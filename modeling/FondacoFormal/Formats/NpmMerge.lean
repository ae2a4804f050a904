import FondacoFormal.Formats.Npm

/-!
# What an npm group's document says of its members'

The merged package document lists every version of every member, with the entry of the first
member that lists it and its tarball moved to the group.
-/

namespace FondacoFormal.Formats.Npm

open Library Library.Fallible Api Server

/-! ## Tarball URLs -/

def PointsInto (feed : Feed) (url : String) : Prop :=
  ∃ path, url = feedBase feed ++ "/" ++ path

/-- The URL is the one of a tarball of this feed: of which package and which version. -/
def Resolves (feed : Feed) (url name version : String) : Prop :=
  ∃ path, url = feedBase feed ++ "/" ++ path ∧ ∃ intent, parse ("/" ++ path) "" = .ok intent ∧
    intent.kind = .artifact ∧ intent.coord.name = name ∧ intent.coord.version = version

def memberFeed (group : Feed) (member : String) : Feed :=
  { group with name := member }

def Moved (group : Feed) (member tarball moved : String) : Prop :=
  PointsInto group moved ∧ ∀ name version,
    Resolves (memberFeed group member) tarball name version → Resolves group moved name version

def external (feed : Feed) : String :=
  if feed.externalURL = "" then "" else Text.trimSuffix feed.externalURL "/"

def mount (member : String) : String :=
  "/npm/" ++ member ++ "/"

structure Movable (group : Feed) (member tarball : String) : Prop where
  /-- If nothing in it looks like the member's mount, it points into the group already. -/
  elsewhere : Text.breakAt (mount member).toList tarball.toList = none → PointsInto group tarball
  /-- If it is a tarball of the member, the first thing that looks like the mount is the mount. -/
  mounted : ∀ before after,
    Text.breakAt (mount member).toList tarball.toList = some (before, after) →
      (∃ name version, Resolves (memberFeed group member) tarball name version) →
        before = (external group).toList

theorem feedBase_eq (feed : Feed) : feedBase feed = external feed ++ "/npm/" ++ feed.name := by
  rw [feedBase, mountBase, external]
  split
  · rfl
  · simp only [String.append_assoc]
    rfl

/-- A request for a tarball: the path has a package and a file, and no slash in the file. -/
theorem parse_artifact {path : String} {intent : Intent}
    (hparse : parse ("/" ++ path) "" = .ok intent) (hkind : intent.kind = .artifact) :
    ∃ decoded before after, pathUnescape path = some decoded ∧
      decoded.toList = before ++ "/-/".toList ++ after ∧ '/' ∉ after ∧
      intent.coord.name = String.ofList before := by
  rw [parse, Text.trimPrefix_append] at hparse
  split at hparse
  · cases hparse
  · split at hparse
    · cases hparse
    · next decoded hdecoded =>
        split at hparse
        · cases hparse
        · split at hparse
          · cases hparse
            cases hkind
          · split at hparse
            · rw [parseDistTags] at hparse
              split at hparse
              · split at hparse
                · cases hparse
                · cases hparse
                  cases hkind
              · cases hparse
            · split at hparse
              · next c before after hbreak =>
                  rw [parseTarball] at hparse
                  split at hparse
                  · cases hparse
                  · next hvalid =>
                      cases hparse
                      simp only [Bool.or_eq_true, not_or, Text.holds, String.toList_ofList,
                        List.contains_iff_mem] at hvalid
                      exact ⟨decoded, c :: before, after, hdecoded,
                        Text.breakAt_eq_some hbreak, hvalid.1.2, rfl⟩
              · rw [parseRoot] at hparse
                split at hparse
                · cases hparse
                  cases hkind
                · cases hparse

theorem pathUnescape_slash {front back decoded : String}
    (hdecoded : pathUnescape (front ++ "/" ++ back) = some decoded) :
    ∃ first second, pathUnescape back = some second ∧
      decoded.toList = first ++ '/' :: second.toList := by
  rw [pathUnescape, Option.map_eq_some_iff] at hdecoded
  obtain ⟨bytes, hbytes, rfl⟩ := hdecoded
  have hencode : Text.encode (front ++ "/" ++ back).toList =
      Text.encode front.toList ++ slash :: Text.encode back.toList := by
    simp only [Text.encode, String.toList_append, List.flatMap_append, List.append_assoc]
    rfl
  rw [hencode] at hbytes
  obtain ⟨first, second, -, hsecond, rfl⟩ := unescape_slash hbytes
  refine ⟨first.map fun b => Char.ofNat b.toNat, byteText second, ?_, ?_⟩
  · rw [pathUnescape, hsecond]
    rfl
  · simp only [byteText, String.toList_ofList, List.map_append, List.map_cons]
    rfl

theorem name_ne_of_longer {front path : String} {intent longer : Intent}
    (hparse : parse ("/" ++ path) "" = .ok intent) (hkind : intent.kind = .artifact)
    (hlonger : parse ("/" ++ (front ++ "/" ++ path)) "" = .ok longer)
    (hkind' : longer.kind = .artifact) : longer.coord.name ≠ intent.coord.name := by
  obtain ⟨decoded, before, after, hdecoded, hsplit, hslash, hname⟩ := parse_artifact hparse hkind
  obtain ⟨decoded', before', after', hdecoded', hsplit', hslash', hname'⟩ :=
    parse_artifact hlonger hkind'
  obtain ⟨first, second, hsecond, hwhole⟩ := pathUnescape_slash hdecoded'
  rw [hdecoded] at hsecond
  cases hsecond
  intro heq
  rw [hname, hname'] at heq
  cases String.ofList_injective heq
  -- both texts end in the same way, so what comes before the last slash is the same
  have hlast : before ++ "/-".toList ++ '/' :: after' =
      first ++ '/' :: (before ++ "/-".toList) ++ '/' :: after := by
    have hends : before ++ "/-/".toList ++ after' =
        first ++ '/' :: (before ++ "/-/".toList ++ after) := by
      rw [← hsplit', hwhole, hsplit]
    simpa using hends
  have hlength := congrArg List.length (Text.last_segment_unique hslash' hslash hlast).1
  simp only [List.length_append, List.length_cons] at hlength
  omega

theorem toList_memberURL (group : Feed) (member path : String) :
    (feedBase (memberFeed group member) ++ "/" ++ path).toList =
      (external group).toList ++ (mount member).toList ++ path.toList := by
  rw [feedBase_eq]
  simp only [memberFeed, external, mount, String.toList_append, List.append_assoc]
  rfl

section Members

variable {member : String}

theorem repointTarball_eq (hmember : member ≠ "") (tarball base : String) :
    repointTarball tarball member base =
      match Text.breakAt (mount member).toList tarball.toList with
      | none => tarball
      | some (_, after) => base ++ "/" ++ String.ofList after := by
  rw [repointTarball, if_neg hmember, repoint]
  change ((Text.breakAt (mount member).toList tarball.toList).map fun parts =>
    base ++ "/" ++ String.ofList parts.2).getD tarball = _
  cases Text.breakAt (mount member).toList tarball.toList <;> rfl

/-- If a URL has the mount earlier than where it is mounted, what follows has more in front. -/
theorem after_of_earlier {ext mounted before after path : List Char}
    (hwhole : before ++ mounted ++ after = ext ++ (mounted ++ path))
    (hend : ∃ front, mounted = front ++ ['/']) (hearlier : before.length < ext.length) :
    ∃ front, after = front ++ '/' :: path := by
  have hlength : (before ++ mounted).length < (ext ++ mounted).length := by
    simp only [List.length_append]
    omega
  have hprefix : before ++ mounted <+: ext ++ mounted :=
    List.prefix_of_prefix_length_le ⟨after, hwhole⟩ ⟨path, List.append_assoc ..⟩ hlength.le
  obtain ⟨more, hmore⟩ := hprefix
  have hafter : after = more ++ path := by
    rw [← List.append_assoc, ← hmore, List.append_assoc, List.append_assoc] at hwhole
    simpa using hwhole
  have hne : more ≠ [] := by
    rintro rfl
    rw [← hmore, List.append_nil] at hlength
    exact absurd hlength (lt_irrefl _)
  obtain ⟨front, hfront⟩ := hend
  -- what comes after the first mount ends where the second one does, in a slash
  have hlast : more.getLast hne = '/' := by
    have hwholeLast := congrArg List.getLast? hmore
    rw [hfront, List.getLast?_append_of_ne_nil _ hne, ← List.append_assoc, List.getLast?_concat,
      List.getLast?_eq_some_getLast hne] at hwholeLast
    exact Option.some.inj hwholeLast
  refine ⟨more.dropLast, ?_⟩
  rw [hafter, ← List.singleton_append, ← List.append_assoc]
  congr 1
  rw [← hlast]
  exact (List.dropLast_append_getLast hne).symm

/-- A tarball moves with its package and version if and only if its URL is movable. -/
theorem moved_iff (group : Feed) (hmember : member ≠ "") (tarball : String) :
    Moved group member tarball (repointTarball tarball member (feedBase group)) ↔
      Movable group member tarball := by
  rw [Moved, repointTarball_eq hmember]
  cases hbreak : Text.breakAt (mount member).toList tarball.toList with
  | none =>
    refine ⟨fun hmoved => ⟨fun _ => hmoved.1, fun before after hsome => ?_⟩,
      fun hmovable => ⟨hmovable.elsewhere hbreak, fun name version hresolves => ?_⟩⟩
    · rw [hbreak] at hsome
      cases hsome
    · obtain ⟨path, rfl, -⟩ := hresolves
      rw [toList_memberURL] at hbreak
      obtain ⟨before, after, hsome, -⟩ :=
        Text.breakAt_first (mount member).toList (external group).toList path.toList
      rw [hbreak] at hsome
      cases hsome
  | some parts =>
    obtain ⟨before, after⟩ := parts
    have hwhole := Text.breakAt_eq_some hbreak
    refine ⟨fun hmoved => ⟨fun hnone => ?_, fun before' after' hsome => ?_⟩,
      fun hmovable => ⟨⟨String.ofList after, rfl⟩, ?_⟩⟩
    · rw [hbreak] at hnone
      cases hnone
    · rw [hbreak] at hsome
      cases hsome
      rintro ⟨name, version, hresolves⟩
      have hgroup := hmoved.2 name version hresolves
      obtain ⟨path, rfl, intent, hparse, hkind, hname, -⟩ := hresolves
      obtain ⟨path', heq, longer, hlonger, hkind', hname', -⟩ := hgroup
      rw [toList_memberURL] at hwhole hbreak
      obtain ⟨first, rest, hfirst, hlength⟩ :=
        Text.breakAt_first (mount member).toList (external group).toList path.toList
      rw [hbreak] at hfirst
      cases hfirst
      rw [List.append_assoc] at hwhole
      rcases hlength.lt_or_eq with hearlier | hequal
      · obtain ⟨front, hfront⟩ := after_of_earlier hwhole.symm
          ⟨("/npm/" ++ member).toList, by simp [mount]⟩ hearlier
        have hpath' : path' = String.ofList front ++ "/" ++ path := by
          have hinj := congrArg String.toList heq
          simp only [String.toList_append, String.toList_ofList, List.append_cancel_left_eq]
            at hinj
          rw [← String.toList_inj, ← hinj, hfront]
          simp
        subst hpath'
        exact absurd (hname'.trans hname.symm) (name_ne_of_longer hparse hkind hlonger hkind')
      · rw [List.append_assoc] at hwhole
        exact (List.append_inj_left hwhole hequal.symm).symm
    · rintro name version ⟨path, rfl, hintent⟩
      have hbefore := hmovable.mounted before after hbreak ⟨name, version, path, rfl, hintent⟩
      rw [toList_memberURL, hbefore] at hwhole
      have hafter : String.ofList after = path := by
        rw [← String.toList_inj, String.toList_ofList]
        exact (List.append_cancel_left hwhole).symm
      exact ⟨path, by rw [← hafter], hintent⟩

/-! ## Documents -/

section Documents

variable (lib : JsonLib)

def docOf (part : GroupPart) : lib.Map :=
  ((Value.unmarshalMap lib.numbers part.body).map Value.fields).getD []

def versionsOf (doc : lib.Map) : lib.Map :=
  mapAt lib doc "versions"

def tagsOf (doc : lib.Map) : lib.Map :=
  mapAt lib doc "dist-tags"

def firstListing (parts : List GroupPart) (version : String) : Option (String × lib.Any) :=
  parts.findSome? fun part =>
    ((versionsOf lib (docOf lib part)).lookup version).map fun entry => (part.feed, entry)

def listedVersions (parts : List GroupPart) : List String :=
  parts.flatMap fun part => (versionsOf lib (docOf lib part)).map Prod.fst

def isDistTags (intent : Intent) : Bool :=
  Text.hasPrefix intent.remotePath "-/package/"

/-- The part is a document of the kind that is asked for, of a feed with a name: an object, and for
dist-tags one of texts. -/
structure WellFormed (intent : Intent) (part : GroupPart) : Prop where
  named : part.feed ≠ ""
  decodes : Value.unmarshalMap lib.numbers part.body = some (.obj (docOf lib part))
  tags : isDistTags intent = true → ∀ tag value, (docOf lib part).lookup tag = some value →
    ∃ version, value = .str version

def TagsListed (doc : lib.Map) : Prop :=
  ∀ tag value, (tagsOf lib doc).lookup tag = some value →
    ∃ version, value = .str version ∧ ((versionsOf lib doc).lookup version).isSome = true

/-- The entry of a version in the group's document, by the one of the member. -/
def EntryMoved (group : Feed) (member : String) : lib.Any → lib.Any → Prop
  | .obj entry, moved =>
    match archiveURL lib "tarball" entry with
    | none => moved = .obj entry
    | some (dist, tarball) => ∃ url, Moved group member tarball url ∧
        moved = .obj (setArchiveURL lib "tarball" entry dist url)
  | value, moved => moved = value

structure RootComplete (group : Feed) (parts : List GroupPart) (doc : lib.Map) : Prop where
  versions : ∀ version, ((versionsOf lib doc).lookup version).isSome = true ↔
    ∃ part ∈ parts, ((versionsOf lib (docOf lib part)).lookup version).isSome = true
  entries : ∀ version member entry, firstListing lib parts version = some (member, entry) →
    ∃ moved, (versionsOf lib doc).lookup version = some moved ∧
      EntryMoved lib group member entry moved
  latest : ∃ version, (tagsOf lib doc).lookup "latest" = some (.str version) ∧
    ((versionsOf lib doc).lookup version).isSome = true ∧
    ∀ other, ((versionsOf lib doc).lookup other).isSome = true → Semver.less version other = false
  tags : ∀ tag, tag ≠ "latest" → (tagsOf lib doc).lookup tag =
    parts.findSome? fun part => (tagsOf lib (docOf lib part)).lookup tag
  named : (∀ part ∈ parts, TagsListed lib (docOf lib part)) → TagsListed lib doc

def TagsComplete (parts : List GroupPart) (doc : lib.Map) : Prop :=
  ∀ tag, doc.lookup tag = parts.findSome? fun part => (docOf lib part).lookup tag

/-- `Merge` succeeds and loses nothing, however versions are sorted. -/
def LosesNothing (group : Feed) (intent : Intent) (parts : List GroupPart) : Prop :=
  ∀ sorter : Sorter Semver.less, ∃ body doc, merge lib sorter group intent parts = .ok body ∧
    Value.unmarshalMap lib.numbers body = some (.obj doc) ∧
    if isDistTags intent then TagsComplete lib parts doc else RootComplete lib group parts doc

/-- The documents can be merged: package roots with some version, whose versions are ordered and
whose tarballs can be moved. -/
structure Mergeable (group : Feed) (intent : Intent) (parts : List GroupPart) : Prop where
  root : isDistTags intent = false
  listed : listedVersions lib parts ≠ []
  ordered : WeakOrderOn Semver.less (listedVersions lib parts)
  movable : ∀ version member entry, firstListing lib parts version = some (member, .obj entry) →
    ∀ dist tarball, archiveURL lib "tarball" entry = some (dist, tarball) →
      Movable group member tarball

end Documents

/-! ## Gathering -/

section Gathering

variable {lib : JsonLib}

theorem foldl_addVersion_versions (member : String) (entries : lib.Map) (g : Gathered lib) :
    (entries.foldl (addVersion lib member) g).versions = Fields.complete g.versions entries := by
  induction entries generalizing g with
  | nil => rfl
  | cons entry rest ih =>
    rw [List.foldl_cons, ih, Fields.complete_cons, addVersion]
    split <;> rfl

theorem foldl_addVersion_origin (member : String) (entries : lib.Map) (g : Gathered lib)
    (version : String) :
    (entries.foldl (addVersion lib member) g).origin.lookup version =
      if (g.versions.lookup version).isSome = false ∧ (entries.lookup version).isSome = true then
        some member
      else g.origin.lookup version := by
  induction entries generalizing g with
  | nil => simp
  | cons entry rest ih =>
    rw [List.foldl_cons, ih, Fields.lookup_cons, addVersion]
    by_cases htaken : (g.versions.lookup entry.1).isSome = true
    · rw [if_pos htaken]
      by_cases heq : version = entry.1
      · rw [if_pos heq, heq, htaken]
        simp
      · rw [if_neg heq]
    · rw [if_neg htaken, Fields.lookup_set, Fields.lookup_set]
      by_cases heq : version = entry.1
      · rw [if_pos heq, if_pos heq, if_pos heq, heq]
        simp [htaken]
      · rw [if_neg heq, if_neg heq, if_neg heq]

def Records (g : Gathered lib) (found : String → Option (String × lib.Any)) : Prop :=
  ∀ version, g.versions.lookup version = (found version).map Prod.snd ∧
    g.origin.lookup version = (found version).map Prod.fst

variable {g : Gathered lib} {found : String → Option (String × lib.Any)}

theorem addDocument_records (records : Records g found) (member : String) (doc : lib.Any) :
    Records (addDocument lib g (member, doc)) fun version =>
      (found version).or (((versionsOf lib doc.fields).lookup version).map
        fun entry => (member, entry)) := by
  intro version
  have hversions : (addDocument lib g (member, doc)).versions =
      Fields.complete g.versions (versionsOf lib doc.fields) :=
    foldl_addVersion_versions member (versionsOf lib doc.fields) g
  have horigin : (addDocument lib g (member, doc)).origin.lookup version = _ :=
    foldl_addVersion_origin member (versionsOf lib doc.fields) g version
  rw [hversions, horigin, Fields.lookup_complete, (records version).1, (records version).2]
  beta_reduce
  cases found version with
  | none => cases (versionsOf lib doc.fields).lookup version <;> simp
  | some recorded => simp

theorem foldl_addDocument_records (docs : List (String × lib.Any)) (records : Records g found) :
    Records (docs.foldl (addDocument lib) g) fun version =>
      (found version).or (docs.findSome? fun doc =>
        ((versionsOf lib doc.2.fields).lookup version).map fun entry => (doc.1, entry)) := by
  induction docs generalizing g found with
  | nil => simpa using records
  | cons doc rest ih =>
    intro version
    have hrest := ih (addDocument_records records doc.1 doc.2) version
    simp only [Option.or_assoc] at hrest
    simp only [List.foldl_cons, List.findSome?_cons]
    cases hlookup : (versionsOf lib doc.2.fields).lookup version with
    | none => simpa only [hlookup, Option.map_none, Option.none_or] using hrest
    | some entry => simpa only [hlookup, Option.map_some, Option.some_or] using hrest

theorem foldl_addDocument_distTags (docs : List (String × lib.Any)) (g : Gathered lib)
    (tag : String) :
    (docs.foldl (addDocument lib) g).distTags.lookup tag =
      (g.distTags.lookup tag).or (docs.findSome? fun doc =>
        (tagsOf lib doc.2.fields).lookup tag) := by
  induction docs generalizing g with
  | nil => simp
  | cons doc rest ih =>
    have hstep : (addDocument lib g doc).distTags =
        Fields.complete g.distTags (tagsOf lib doc.2.fields) := rfl
    rw [List.foldl_cons, ih, hstep, Fields.lookup_complete, Option.or_assoc,
      List.findSome?_cons]
    cases (tagsOf lib doc.2.fields).lookup tag <;> rfl

structure Gathered.Canonical (g : Gathered lib) : Prop where
  merged : Value.Canonical (.obj g.merged)
  versions : Value.Canonical (.obj g.versions)
  times : Value.Canonical (.obj g.times)
  distTags : Value.Canonical (.obj g.distTags)

theorem canonical_mapAt {doc : lib.Map} (hdoc : Value.Canonical (.obj doc)) (field : String) :
    Value.Canonical (.obj (mapAt lib doc field)) := by
  rw [mapAt]
  cases hlookup : doc.lookup field with
  | none => exact Value.canonical_obj.2 ⟨List.Pairwise.nil, nofun⟩
  | some value =>
    cases value with
    | obj fields => exact hdoc.lookup hlookup
    | null | bool | num | str | arr => exact Value.canonical_obj.2 ⟨List.Pairwise.nil, nofun⟩

theorem addDocument_canonical (canonical : g.Canonical) {doc : lib.Map}
    (hdoc : Value.Canonical (.obj doc)) : (addDocument lib g (member, .obj doc)).Canonical where
  merged := canonical.merged.complete (((hdoc.erase _).erase _).erase _)
  versions := by
    have hversions : (addDocument lib g (member, .obj doc)).versions = _ :=
      foldl_addVersion_versions member (mapAt lib doc "versions") g
    rw [hversions]
    exact canonical.versions.complete (canonical_mapAt hdoc "versions")
  times := canonical.times.complete (canonical_mapAt hdoc "time")
  distTags := canonical.distTags.complete (canonical_mapAt hdoc "dist-tags")

def gathered (lib : JsonLib) (parts : List GroupPart) : Gathered lib :=
  (parts.map fun part => (part.feed, .obj (docOf lib part))).foldl (addDocument lib) {}

theorem gathered_records (parts : List GroupPart) :
    Records (gathered lib parts) (firstListing lib parts) := by
  intro version
  have hempty : Records ({} : Gathered lib) fun _ => none := fun _ => ⟨rfl, rfl⟩
  have hrecords := foldl_addDocument_records
    (parts.map fun part => (part.feed, .obj (docOf lib part))) hempty version
  simp only [List.findSome?_map, Option.none_or] at hrecords
  exact hrecords

theorem gathered_distTags (parts : List GroupPart) (tag : String) :
    (gathered lib parts).distTags.lookup tag =
      parts.findSome? fun part => (tagsOf lib (docOf lib part)).lookup tag := by
  rw [gathered, foldl_addDocument_distTags, List.findSome?_map]
  rfl

variable {parts : List GroupPart}

theorem canonical_gathered {intent : Intent} (hparts : ∀ part ∈ parts, WellFormed lib intent part) :
    (gathered lib parts).Canonical := by
  have hempty : Value.Canonical (.obj ([] : lib.Map)) :=
    Value.canonical_obj.2 ⟨List.Pairwise.nil, nofun⟩
  refine List.foldlRecOn _ _ ⟨hempty, hempty, hempty, hempty⟩ fun g canonical doc hdoc => ?_
  obtain ⟨part, hmem, rfl⟩ := List.mem_map.1 hdoc
  exact addDocument_canonical canonical
    (Value.canonical_unmarshalMap _ (hparts part hmem).decodes)

variable {version : String}

theorem mem_listedVersions :
    version ∈ listedVersions lib parts ↔
      ∃ part ∈ parts, ((versionsOf lib (docOf lib part)).lookup version).isSome = true := by
  simp only [listedVersions, List.mem_flatMap, Fields.lookup_isSome_iff]

theorem firstListing_isSome :
    (firstListing lib parts version).isSome = true ↔ version ∈ listedVersions lib parts := by
  rw [mem_listedVersions, firstListing, List.findSome?_isSome_iff]
  simp only [Option.isSome_map]

theorem mem_gathered :
    version ∈ (gathered lib parts).versions.map Prod.fst ↔ version ∈ listedVersions lib parts := by
  rw [← Fields.lookup_isSome_iff, (gathered_records parts version).1, Option.isSome_map,
    firstListing_isSome]

theorem gathered_eq_nil : (gathered lib parts).versions = [] ↔ listedVersions lib parts = [] := by
  rw [← List.map_eq_nil_iff (f := Prod.fst), List.eq_nil_iff_forall_not_mem,
    List.eq_nil_iff_forall_not_mem]
  simp only [mem_gathered]

end Gathering

/-! ## The merged document -/

section Merged

variable {lib : JsonLib} {sorter : Sorter Semver.less} {g : Gathered lib} {base : String}

theorem versionsOf_document : versionsOf lib (g.document lib sorter base) =
    g.versions.map fun entry =>
      (entry.1, repointEntry lib ((g.origin.lookup entry.1).getD "") base entry.2) := by
  rw [versionsOf, mapAt, Gathered.document, Fields.lookup_set_of_ne (by decide),
    Fields.lookup_set_of_ne (by decide), Fields.lookup_set_self]
  rfl

theorem highestVersion_eq :
    highestVersion lib sorter (versionsOf lib (g.document lib sorter base)) =
      (sorter.sort (g.versions.map Prod.fst)).getLast?.getD "" := by
  rw [highestVersion, versionsOf_document, List.map_map]
  rfl

theorem tagsOf_document : tagsOf lib (g.document lib sorter base) =
    Fields.set "latest" (.str ((sorter.sort (g.versions.map Prod.fst)).getLast?.getD ""))
      g.distTags := by
  have hhighest : highestVersion lib sorter (versionsOf lib (g.document lib sorter base)) = _ :=
    highestVersion_eq
  rw [← hhighest, versionsOf_document, tagsOf, mapAt, Gathered.document, Fields.lookup_set_self]
  rfl

theorem canonical_repointEntry {value : lib.Any} (hvalue : Value.Canonical value) :
    Value.Canonical (repointEntry lib member base value) := by
  cases value with
  | obj entry =>
    rw [repointEntry]
    split
    · exact hvalue
    · next dist tarball hdist =>
        exact canonical_setArchiveURL hvalue (canonical_archiveURL hvalue hdist) _ _
  | null | bool | num | str | arr => exact hvalue

theorem canonical_document (canonical : g.Canonical) :
    Value.Canonical (.obj (g.document lib sorter base)) := by
  have hversions := canonical.versions.map
    (fun version entry => repointEntry lib ((g.origin.lookup version).getD "") base entry)
    fun _ _ hvalue => canonical_repointEntry hvalue
  exact ((canonical.merged.set _ hversions).set _ canonical.times).set _
    (canonical.distTags.set _ (Value.canonical_str _))

end Merged

/-! ## The merge -/

section Merge

variable {lib : JsonLib} {sorter : Sorter Semver.less} {group : Feed} {intent : Intent}
  {parts : List GroupPart}

theorem merge_eq (hkind : intent.kind = .metadata)
    (hparts : ∀ part ∈ parts, WellFormed lib intent part) :
    merge lib sorter group intent parts =
      if (gathered lib parts).versions = [] then
        .error (.wrapping .notFound "no member of the group has any version of this package")
      else .ok (lib.marshal
        (.obj ((gathered lib parts).document lib sorter (feedBase group)))) := by
  have hread : ∀ part ∈ parts, readPart lib part = .ok (part.feed, .obj (docOf lib part)) := by
    intro part hmem
    rw [readPart, JsonLib.readMap, (hparts part hmem).decodes]
    rfl
  have hsearch : intent.kind ≠ .search := by
    rw [hkind]
    decide
  rw [merge, if_neg hsearch, mergePackument, mapM_eq_map hread]
  rfl

/-- What `Merge` returns, decoded. -/
theorem merge_ok (hkind : intent.kind = .metadata)
    (hparts : ∀ part ∈ parts, WellFormed lib intent part) {body : Bytes} {doc : lib.Map}
    (hbody : merge lib sorter group intent parts = .ok body)
    (hdoc : Value.unmarshalMap lib.numbers body = some (.obj doc)) :
    listedVersions lib parts ≠ [] ∧
      doc = (gathered lib parts).document lib sorter (feedBase group) := by
  rw [merge_eq hkind hparts] at hbody
  split at hbody
  · cases hbody
  · next hsome =>
      cases hbody
      rw [JsonLib.marshal, Value.unmarshalMap_marshal _
        (canonical_document (canonical_gathered hparts))] at hdoc
      cases hdoc
      exact ⟨fun hnone => hsome (gathered_eq_nil.2 hnone), rfl⟩

theorem lookup_versionsOf_document (parts : List GroupPart) (base version : String) :
    (versionsOf lib ((gathered lib parts).document lib sorter base)).lookup version =
      (firstListing lib parts version).map fun found => repointEntry lib found.1 base found.2 := by
  rw [versionsOf_document, Fields.lookup_map fun version entry =>
    repointEntry lib (((gathered lib parts).origin.lookup version).getD "") base entry]
  have hrecords : Records (gathered lib parts) (firstListing lib parts) := gathered_records parts
  obtain ⟨hversion, horigin⟩ := hrecords version
  rw [hversion, horigin]
  cases firstListing lib parts version <;> rfl

theorem listed_iff (parts : List GroupPart) (base version : String) :
    ((versionsOf lib ((gathered lib parts).document lib sorter base)).lookup version).isSome =
      true ↔ version ∈ listedVersions lib parts := by
  rw [lookup_versionsOf_document, Option.isSome_map, firstListing_isSome]

theorem entryMoved_iff (hmember : member ≠ "") (entry : lib.Any) :
    EntryMoved lib group member entry (repointEntry lib member (feedBase group) entry) ↔
      ∀ fields, entry = .obj fields → ∀ dist tarball,
        archiveURL lib "tarball" fields = some (dist, tarball) → Movable group member tarball := by
  cases entry with
  | obj fields =>
    rw [EntryMoved, repointEntry]
    cases harchive : archiveURL lib "tarball" fields with
    | none =>
      refine ⟨?_, fun _ => rfl⟩
      rintro - _ ⟨⟩ dist tarball hsome
      rw [harchive] at hsome
      cases hsome
    | some found =>
      obtain ⟨dist, tarball⟩ := found
      constructor
      · rintro ⟨url, hmoved, heq⟩ _ ⟨⟩ dist' tarball' hsome
        rw [harchive] at hsome
        cases hsome
        rw [← setArchiveURL_injective (Value.obj.inj heq)] at hmoved
        exact (moved_iff group hmember tarball).1 hmoved
      · intro hmovable
        exact ⟨_, (moved_iff group hmember tarball).2
          (hmovable fields rfl dist tarball harchive), rfl⟩
  | null | bool | num | str | arr => exact ⟨fun _ => nofun, fun _ => rfl⟩

theorem member_named (hparts : ∀ part ∈ parts, WellFormed lib intent part) {version : String}
    {entry : lib.Any} (hfirst : firstListing lib parts version = some (member, entry)) :
    member ≠ "" := by
  obtain ⟨part, hmem, hpart⟩ := List.exists_of_findSome?_eq_some hfirst
  obtain ⟨found, -, heq⟩ := Option.map_eq_some_iff.1 hpart
  cases heq
  exact (hparts part hmem).named

variable (sorter) in
/-- The last of the sorted versions is the tag `latest`. -/
theorem latest_document (parts : List GroupPart) (base : String)
    (hsome : listedVersions lib parts ≠ []) :
    ∃ last, (sorter.sort ((gathered lib parts).versions.map Prod.fst)).getLast? = some last ∧
      (tagsOf lib ((gathered lib parts).document lib sorter base)).lookup "latest" =
        some (.str last) := by
  have hne : sorter.sort ((gathered lib parts).versions.map Prod.fst) ≠ [] := by
    intro hnil
    have hperm := sorter.perm ((gathered lib parts).versions.map Prod.fst)
    rw [hnil, List.nil_perm, List.map_eq_nil_iff] at hperm
    exact hsome (gathered_eq_nil.1 hperm)
  refine ⟨_, List.getLast?_eq_some_getLast hne, ?_⟩
  rw [tagsOf_document, Fields.lookup_set_self, List.getLast?_eq_some_getLast hne]
  rfl

section

variable (hparts : ∀ part ∈ parts, WellFormed lib intent part)

include hparts

theorem rootComplete_of_mergeable (mergeable : Mergeable lib group intent parts) :
    RootComplete lib group parts
      ((gathered lib parts).document lib sorter (feedBase group)) := by
  obtain ⟨last, hlast, hlatest⟩ :=
    latest_document sorter parts (feedBase group) mergeable.listed
  obtain ⟨hmem, hgreatest⟩ := sorter.last_greatest
    (mergeable.ordered.mono fun _ hversion => mem_gathered.1 hversion) hlast
  refine ⟨fun version => ?_, fun version member entry hfirst => ?_, ?_, fun tag htag => ?_,
    fun hnamed tag value htag => ?_⟩
  · rw [listed_iff, mem_listedVersions]
  · rw [lookup_versionsOf_document, hfirst]
    refine ⟨_, rfl, (entryMoved_iff (member_named hparts hfirst) entry).2 ?_⟩
    rintro fields rfl dist tarball harchive
    exact mergeable.movable version member fields hfirst dist tarball harchive
  · refine ⟨last, hlatest, (listed_iff parts _ last).2 (mem_gathered.1 hmem), ?_⟩
    intro other hother
    exact hgreatest other (mem_gathered.2 ((listed_iff parts _ other).1 hother))
  · rw [tagsOf_document, Fields.lookup_set_of_ne htag, gathered_distTags]
  · by_cases heq : tag = "latest"
    · rw [heq, hlatest] at htag
      cases htag
      exact ⟨last, rfl, (listed_iff parts _ last).2 (mem_gathered.1 hmem)⟩
    · rw [tagsOf_document, Fields.lookup_set_of_ne heq, gathered_distTags] at htag
      obtain ⟨part, hpart, hfound⟩ := List.exists_of_findSome?_eq_some htag
      obtain ⟨version, rfl, hlisted⟩ := hnamed part hpart tag value hfound
      exact ⟨version, rfl, (listed_iff parts _ version).2
        (mem_listedVersions.2 ⟨part, hpart, hlisted⟩)⟩

theorem listedVersions_of_distTags (htags : isDistTags intent = true) :
    listedVersions lib parts = [] := by
  rw [List.eq_nil_iff_forall_not_mem]
  intro version hversion
  obtain ⟨part, hmem, hlisted⟩ := mem_listedVersions.1 hversion
  rw [versionsOf, mapAt] at hlisted
  cases hlookup : (docOf lib part).lookup "versions" with
  | none =>
    rw [hlookup] at hlisted
    cases hlisted
  | some value =>
    obtain ⟨text, rfl⟩ := (hparts part hmem).tags htags "versions" value hlookup
    rw [hlookup] at hlisted
    cases hlisted

end

theorem mergeable_of_losesNothing (hkind : intent.kind = .metadata)
    (hparts : ∀ part ∈ parts, WellFormed lib intent part)
    (hloses : LosesNothing lib group intent parts) : Mergeable lib group intent parts := by
  have hsome : listedVersions lib parts ≠ [] := by
    obtain ⟨body, doc, hbody, hdoc, -⟩ := hloses (.stable _)
    exact (merge_ok hkind hparts hbody hdoc).1
  have hroot : isDistTags intent = false := by
    cases htags : isDistTags intent with
    | false => rfl
    | true => exact absurd (listedVersions_of_distTags hparts htags) hsome
  have hcomplete : ∀ sorter : Sorter Semver.less, RootComplete lib group parts
      ((gathered lib parts).document lib sorter (feedBase group)) := by
    intro sorter
    obtain ⟨body, doc, hbody, hdoc, hcomplete⟩ := hloses sorter
    rw [hroot, if_neg Bool.false_ne_true, (merge_ok hkind hparts hbody hdoc).2] at hcomplete
    exact hcomplete
  refine ⟨hroot, hsome, ?_, ?_⟩
  · have horder : WeakOrderOn Semver.less ((gathered lib parts).versions.map Prod.fst) := by
      refine .of_last_greatest fun sorter last hlast other hother => ?_
      obtain ⟨version, hversion, -, hgreatest⟩ := (hcomplete sorter).latest
      rw [tagsOf_document, Fields.lookup_set_self, hlast] at hversion
      cases hversion
      exact hgreatest other ((listed_iff parts _ other).2 (mem_gathered.1 hother))
    exact horder.mono fun _ hversion => mem_gathered.2 hversion
  · intro version member fields hfirst dist tarball harchive
    obtain ⟨moved, hmoved, hentry⟩ :=
      (hcomplete (.stable _)).entries version member (.obj fields) hfirst
    rw [lookup_versionsOf_document, hfirst] at hmoved
    cases hmoved
    exact (entryMoved_iff (member_named hparts hfirst) (.obj fields)).1 hentry fields rfl dist
      tarball harchive

/-- `Merge` of the documents of a package loses nothing if and only if they are package roots that
list some version, in an order, with tarballs that can be moved. -/
theorem merge_loses_nothing_iff_mergeable (hkind : intent.kind = .metadata)
    (hparts : ∀ part ∈ parts, WellFormed lib intent part) :
    LosesNothing lib group intent parts ↔ Mergeable lib group intent parts := by
  refine ⟨mergeable_of_losesNothing hkind hparts, fun mergeable sorter => ?_⟩
  have hbody : merge lib sorter group intent parts = .ok (lib.marshal
      (.obj ((gathered lib parts).document lib sorter (feedBase group)))) := by
    rw [merge_eq hkind hparts, if_neg fun hnil => mergeable.listed (gathered_eq_nil.1 hnil)]
  refine ⟨_, _, hbody, Value.unmarshalMap_marshal _
    (canonical_document (canonical_gathered hparts)), ?_⟩
  rw [mergeable.root, if_neg Bool.false_ne_true]
  exact rootComplete_of_mergeable hparts mergeable

end Merge

end Members

/-! ## Groups that lose something -/

def groupAt (externalURL : String) : Feed where
  name := "all"
  format := "npm"
  externalURL := externalURL

def member (feed : String) (doc : plainLib.Map) : GroupPart :=
  ⟨feed, plainLib.marshal (.obj doc)⟩

section Member

variable {doc : plainLib.Map} (hdoc : Value.Canonical (.obj doc)) (feed : String)

include hdoc

theorem docOf_member : docOf plainLib (member feed doc) = doc := by
  rw [docOf, member, JsonLib.marshal, Value.unmarshalMap_marshal _ hdoc]
  rfl

theorem wellFormed_member {intent : Intent} (hfeed : feed ≠ "")
    (htags : isDistTags intent = true → ∀ tag value, doc.lookup tag = some value →
      ∃ version, value = .str version) :
    WellFormed plainLib intent (member feed doc) where
  named := hfeed
  decodes := by
    rw [docOf_member hdoc]
    exact Value.unmarshalMap_marshal _ hdoc
  tags := by rwa [docOf_member hdoc]

end Member

def tagsIntent : Intent where
  kind := .metadata
  coord := ⟨"npm", "widget", ""⟩
  cacheTTL := 300
  remotePath := "-/package/widget/dist-tags"
  contentType := "application/json"

def rootIntent : Intent where
  kind := .metadata
  coord := ⟨"npm", "widget", ""⟩
  cacheTTL := 300
  remotePath := "widget"
  contentType := "application/json"

def tagsDoc : plainLib.Map :=
  [("latest", .str "1.0.0")]

def packument (version tarball : String) : plainLib.Map :=
  [("versions", .obj [(version, .obj [("dist", .obj [("tarball", .str tarball)])])])]

theorem canonical_tagsDoc : Value.Canonical (.obj tagsDoc) := by
  simp [tagsDoc, Value.Canonical, Value.CanonicalFields, Fields.Sorted]

theorem canonical_packument (version tarball : String) :
    Value.Canonical (.obj (packument version tarball)) := by
  simp [packument, Value.Canonical, Value.CanonicalFields, Fields.Sorted]

theorem wellFormed_packument {feed : String} (hfeed : feed ≠ "") (version tarball : String) :
    WellFormed plainLib rootIntent (member feed (packument version tarball)) :=
  wellFormed_member (canonical_packument version tarball) feed hfeed fun htags =>
    absurd htags (by decide +kernel)

variable {tarball : String}

theorem tarball_packument {feed version url other name : String} {entry dist : plainLib.Map}
    (hfound : ((versionsOf plainLib (docOf plainLib
      (member feed (packument version url)))).lookup other).map
        (fun found => ((member feed (packument version url)).feed, found)) =
          some (name, .obj entry))
    (harchive : archiveURL plainLib "tarball" entry = some (dist, tarball)) :
    name = feed ∧ tarball = url := by
  obtain ⟨found, hlookup, hpair⟩ := Option.map_eq_some_iff.1 hfound
  obtain ⟨hname, hentry⟩ := Prod.ext_iff.1 hpair
  rw [docOf_member (canonical_packument version url)] at hlookup
  rw [(Prod.ext_iff.1 (List.mem_singleton.1 (Fields.mem_of_lookup hlookup))).2] at hentry
  have hfields : [("dist", .obj [("tarball", .str url)])] = entry := Value.obj.inj hentry
  have heq : archiveURL plainLib "tarball" [("dist", .obj [("tarball", .str url)])] =
      if url = "" then none else some ([("tarball", .str url)], url) := rfl
  rw [← hfields, heq] at harchive
  split at harchive
  · cases harchive
  · exact ⟨hname.symm.trans rfl, (Prod.ext_iff.1 (Option.some.inj harchive)).2.symm⟩

/-- The URL of a tarball of the member `one` or `two`. -/
def tarballURL (feed version : String) : String :=
  "https://registry.example/npm/" ++ feed ++ "/widget/-/widget-" ++ version ++ ".tgz"

def twoMembers : List GroupPart :=
  [member "one" (packument "1.0.0" (tarballURL "one" "1.0.0")),
    member "two" (packument "2.0.0" (tarballURL "two" "2.0.0"))]

theorem movable_of_before {group : Feed} {feed : String}
    (hbefore : (Text.breakAt (mount feed).toList tarball.toList).map Prod.fst =
      some (external group).toList) : Movable group feed tarball := by
  obtain ⟨⟨before, after⟩, hbreak, rfl⟩ := Option.map_eq_some_iff.1 hbefore
  refine ⟨fun hnone => ?_, fun before' after' hsome _ => ?_⟩
  · rw [hbreak] at hnone
    cases hnone
  · rw [hbreak] at hsome
    cases hsome
    rfl

/-- The document of a package with a version at each of two members. -/
theorem merge_two_members :
    parse "/widget" "" = .ok rootIntent ∧
      LosesNothing plainLib (groupAt "https://registry.example") rootIntent twoMembers := by
  have hparts : ∀ part ∈ twoMembers, WellFormed plainLib rootIntent part := by
    intro part hmem
    rcases List.mem_pair.1 hmem with rfl | rfl <;> exact wellFormed_packument (by decide) _ _
  have hlisted : listedVersions plainLib twoMembers = ["1.0.0", "2.0.0"] := by
    rw [listedVersions, twoMembers, List.flatMap_cons, List.flatMap_cons, List.flatMap_nil,
      docOf_member (canonical_packument _ _), docOf_member (canonical_packument _ _)]
    rfl
  refine ⟨by decide +kernel, (merge_loses_nothing_iff_mergeable rfl hparts).2 ⟨?_, ?_, ?_, ?_⟩⟩
  · decide +kernel
  · rw [hlisted]
    simp
  · rw [hlisted]
    exact .pair Semver.less_asymm _ _
  · intro version feed entry hfirst dist tarball harchive
    obtain ⟨part, hmem, hfound⟩ := List.exists_of_findSome?_eq_some hfirst
    rcases List.mem_pair.1 hmem with rfl | rfl
    all_goals
      obtain ⟨rfl, rfl⟩ := tarball_packument hfound harchive
      exact movable_of_before (by decide +kernel)

def nestedSite : Feed :=
  groupAt "https://registry.example/npm"

def nestedURL : String :=
  "https://registry.example/npm/npm/npm/widget/-/widget-1.0.0.tgz"

theorem not_movable_nested : ¬ Movable nestedSite "npm" nestedURL := by
  have hresolves : Resolves (memberFeed nestedSite "npm") nestedURL "widget" "1.0.0" := by
    refine ⟨"widget/-/widget-1.0.0.tgz", by decide +kernel, ?_⟩
    refine ⟨{ kind := .artifact, coord := ⟨"npm", "widget", "1.0.0"⟩,
              remotePath := "widget/-/widget-1.0.0.tgz",
              contentType := "application/octet-stream" }, ?_, rfl, rfl, rfl⟩
    decide +kernel
  have hbreak : Text.breakAt (mount "npm").toList nestedURL.toList =
      some ("https://registry.example".toList, "npm/widget/-/widget-1.0.0.tgz".toList) := by
    decide +kernel
  intro hmovable
  exact absurd (hmovable.mounted _ _ hbreak ⟨_, _, hresolves⟩) (by decide +kernel)

/-- The dist-tags of a package are not found in the group although a member has them; and the
tarball of a member loses its way at a site whose URL ends like a mount. -/
theorem merge_loses_documents :
    (parse "/-/package/widget/dist-tags" "" = .ok tagsIntent ∧
      WellFormed plainLib tagsIntent (member "one" tagsDoc) ∧
      ¬ LosesNothing plainLib (groupAt "https://registry.example") tagsIntent
        [member "one" tagsDoc]) ∧
    WellFormed plainLib rootIntent (member "npm" (packument "1.0.0" nestedURL)) ∧
      ¬ LosesNothing plainLib nestedSite rootIntent
        [member "npm" (packument "1.0.0" nestedURL)] := by
  have htags : WellFormed plainLib tagsIntent (member "one" tagsDoc) := by
    refine wellFormed_member canonical_tagsDoc "one" (by decide) fun _ tag value hvalue => ?_
    exact ⟨_, (Prod.ext_iff.1 (List.mem_singleton.1 (Fields.mem_of_lookup hvalue))).2⟩
  have hroot : WellFormed plainLib rootIntent (member "npm" (packument "1.0.0" nestedURL)) :=
    wellFormed_packument (by decide) _ _
  refine ⟨⟨by decide +kernel, htags, fun hloses => ?_⟩, hroot, fun hloses => ?_⟩
  · have mergeable := mergeable_of_losesNothing rfl (by simpa using htags) hloses
    exact absurd mergeable.root (by decide +kernel)
  · have mergeable := mergeable_of_losesNothing rfl (by simpa using hroot) hloses
    refine not_movable_nested (mergeable.movable "1.0.0" "npm"
      [("dist", .obj [("tarball", .str nestedURL)])] ?_ [("tarball", .str nestedURL)] nestedURL ?_)
    · rw [firstListing, List.findSome?_cons, docOf_member (canonical_packument _ _)]
      rfl
    · rfl

end FondacoFormal.Formats.Npm
