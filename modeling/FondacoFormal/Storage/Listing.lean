import FondacoFormal.Storage.Fs
import Mathlib.Data.List.Pairwise

/-!
# What `List` yields on a file system

The walk goes through each directory in the order of its names, from the deepest directory the
prefix implies.
-/

namespace FondacoFormal.Storage

open Library Library.FileTree Library.Paths

namespace FsStore

/-! ## The directory of a prefix -/

theorem toList_of_beforeSlash {start above : String} (habove : beforeSlash start = some above) :
    ∃ last, start.toList = above.toList ++ '/' :: last := by
  have hsplit := List.dropLast_append_getLast (segments_ne_nil start.toList)
  have hfree : ∀ s ∈ (segments start.toList).dropLast, '/' ∉ s :=
    fun s hs => slash_not_mem_segment (List.mem_of_mem_dropLast hs)
  rw [beforeSlash] at habove
  generalize (segments start.toList).dropLast = names at habove hsplit hfree
  cases names with
  | nil => cases habove
  | cons first rest =>
    refine ⟨(segments start.toList).getLast (segments_ne_nil _), segments_injective ?_⟩
    rw [← Option.some.inj habove, String.toList_ofList, segments_append_slash,
      segments_intercalate hfree (List.cons_ne_nil _ _),
      segments_of_not_mem (slash_not_mem_segment (List.getLast_mem _)), hsplit]

theorem listDir_above {start key : String} (hkey : keyPath key = true)
    (hstart : start.toList <+: key.toList) : listDir start <+: pathOf key := by
  rw [listDir]
  split
  · exact List.nil_prefix
  · next above habove =>
      obtain ⟨last, hlast⟩ := toList_of_beforeSlash habove
      obtain ⟨more, hmore⟩ := hstart
      have hpath : pathOf key = segments above.toList ++ segments (last ++ more) := by
        rw [pathOf, ← hmore, hlast, List.append_assoc, List.cons_append, segments_append_slash]
      have hproper := (keyPath_iff key).1 hkey
      -- No name is empty, so the text before the last slash ends in none.
      have hsuffix : Text.hasSuffix above "/" = false := by
        by_contra hends
        obtain ⟨front, hfront⟩ := List.isSuffixOf_iff_suffix.1 (Bool.not_eq_false _ ▸ hends)
        refine (hproper [] ?_).1 rfl
        rw [hpath, ← hfront]
        refine List.mem_append_left _ ?_
        rw [show front ++ "/".toList = front ++ '/' :: [] from rfl, segments_append_slash]
        exact List.mem_append_right _ (by decide)
      rw [Text.trimSuffix, hsuffix]
      simp only [Bool.false_eq_true, if_false]
      split
      · rw [hpath]
        exact List.prefix_append _ _
      · exact List.nil_prefix

/-! ## The walk -/

def Stored (s : FsStore) (start key : String) : Prop :=
  start.toList <+: key.toList ∧ ∃ bytes, s.data.content (pathOf key) = some bytes

/-- The directory of the prefix can be walked: its path has no zero byte and is not too long, no
name above it is that of a file, and the first name that is not there is not too long. -/
structure Reachable (s : FsStore) (start : String) : Prop where
  taken : s.limits.refused "data" (listDir start) = none
  clear : s.data.fileAbove (listDir start) = false
  short : s.data.overlong s.limits.fits (listDir start) = false

/-- What `List` reports of a stored key. -/
def listed (s : FsStore) (key : String) (bytes : Bytes) : BlobInfo :=
  { s.infoOf key bytes with contentType := "" }

section

variable {s : FsStore} {start : String}

theorem list_of_not_reachable (hreach : ¬s.Reachable start) :
    ∃ error, s.list start = .error error := by
  obtain ⟨error, hne, hsys⟩ := sys_of_not_clear
    (fun hclear => hreach ⟨hclear.1, hclear.2.1, hclear.2.2⟩) (s.data.find (listDir start))
  refine ⟨error, ?_⟩
  rw [list, hsys]
  cases error with
  | notExist => exact absurd rfl hne
  | notDir | exist | notEmpty | invalid | nameTooLong => rfl

/-- The files of the walk are those below the directory, and a missing directory has none. -/
theorem list_of_reachable (hreach : s.Reachable start) :
    s.list start = .ok ((s.data.walk (listDir start)).filterMap fun file =>
      if start.toList.isPrefixOf (keyOf file.1).toList then some (s.listed (keyOf file.1) file.2)
      else none) := by
  rw [list, sys_of_clear hreach.taken hreach.clear hreach.short]
  cases hcontent : s.data.content (listDir start) with
  | some bytes => rw [Tree.find_of_content hcontent]; rfl
  | none =>
    rw [Tree.find_of_absent hcontent]
    cases hdir : s.data.isDirAt (listDir start) with
    | true => rfl
    | false =>
      rw [Tree.walk_of_absent hcontent hdir]
      rfl

/-- `List` yields the stored keys that start with the prefix, in the order of their names. -/
theorem list_spec (formed : s.Formed) (hreach : s.Reachable start) :
    ∃ infos, s.list start = .ok infos ∧
      (infos.Pairwise fun a b => pathOf a.key < pathOf b.key) ∧
      ∀ info, info ∈ infos ↔ ∃ key bytes, start.toList <+: key.toList ∧
        s.data.content (pathOf key) = some bytes ∧ info = s.listed key bytes := by
  have hpath : ∀ {p bytes}, s.data.content p = some bytes → pathOf (keyOf p) = p :=
    fun hcontent => pathOf_keyOf (formed.data.valid _ _ hcontent).nonempty
      (formed.data.valid _ _ hcontent).slash
  refine ⟨_, list_of_reachable hreach, ?_, fun info => ?_⟩
  · have hsorted := List.Pairwise.and_mem.1
      (formed.data.sorted.sublist List.filter_sublist : (s.data.walk (listDir start)).Pairwise _)
    refine hsorted.filterMap _ fun a b hab info hinfo info' hinfo' => ?_
    obtain ⟨ha, hb, hlt⟩ := hab
    simp only [Option.ite_none_right_eq_some, Option.some.injEq] at hinfo hinfo'
    rw [← hinfo.2, ← hinfo'.2]
    change pathOf (keyOf a.1) < pathOf (keyOf b.1)
    rwa [hpath (formed.data.mem_walk.1 ha).2, hpath (formed.data.mem_walk.1 hb).2]
  · simp only [List.mem_filterMap, Option.ite_none_right_eq_some, Option.some.injEq]
    constructor
    · rintro ⟨⟨p, bytes⟩, hmem, hstart, rfl⟩
      have hcontent := (formed.data.mem_walk.1 hmem).2
      exact ⟨keyOf p, bytes, List.isPrefixOf_iff_prefix.1 hstart, by rw [hpath hcontent, hcontent],
        rfl⟩
    · rintro ⟨key, bytes, hstart, hcontent, rfl⟩
      have hbelow := listDir_above (accepts_of_content formed.data hcontent).1 hstart
      refine ⟨(pathOf key, bytes), formed.data.mem_walk.2 ⟨hbelow, hcontent⟩, ?_⟩
      rw [keyOf_pathOf]
      exact ⟨List.isPrefixOf_iff_prefix.2 hstart, rfl⟩

end

/-! ## The contract -/

/-- `List` yields exactly the keys that start with the prefix, each once and in byte order,
with the size and the digest that `Stat` reports. -/
def ListsAsStat (s : FsStore) (start : String) : Prop :=
  ∃ infos, s.list start = .ok infos ∧ (infos.Pairwise fun a b => a.key < b.key) ∧
    (∀ key, key ∈ infos.map BlobInfo.key ↔
      start.toList <+: key.toList ∧ ∃ info, s.stat key = .ok info) ∧
    ∀ info ∈ infos, ∃ stat, s.stat info.key = .ok stat ∧ info.size = stat.size ∧
      info.sha256 = stat.sha256

/-- No two stored keys with the prefix first differ where one has a slash and the other a
character that sorts before the slash. -/
def Uncrossed (s : FsStore) (start : String) : Prop :=
  ∀ a b, s.Stored start a → s.Stored start b → ¬Crossed a.toList b.toList

section

variable {s : FsStore} {start : String}

theorem listsAsStat_of_uncrossed (formed : s.Formed) (hreach : s.Reachable start)
    (huncrossed : s.Uncrossed start) : s.ListsAsStat start := by
  obtain ⟨infos, hlist, hsorted, hmem⟩ := list_spec formed hreach
  have hstored : ∀ info ∈ infos, s.Stored start info.key := by
    intro info hinfo
    obtain ⟨key, bytes, hstart, hcontent, rfl⟩ := (hmem info).1 hinfo
    exact ⟨hstart, bytes, hcontent⟩
  refine ⟨infos, hlist, ?_, fun key => ?_, fun info hinfo => ?_⟩
  · refine (List.Pairwise.and_mem.1 hsorted).imp fun {a b} hab => ?_
    obtain ⟨ha, hb, hlt⟩ := hab
    rw [String.lt_iff_toList_lt]
    exact (lt_or_crossed ((segments_lt_iff _ _).1 hlt)).resolve_right
      (huncrossed a.key b.key (hstored a ha) (hstored b hb))
  · rw [List.mem_map]
    constructor
    · rintro ⟨info, hinfo, rfl⟩
      obtain ⟨hstart, bytes, hcontent⟩ := hstored info hinfo
      exact ⟨hstart, s.infoOf info.key bytes, (stat_eq_ok formed).2 ⟨bytes, hcontent, rfl⟩⟩
    · rintro ⟨hstart, info, hstat⟩
      obtain ⟨bytes, hcontent, -⟩ := (stat_eq_ok formed).1 hstat
      exact ⟨s.listed key bytes, (hmem _).2 ⟨key, bytes, hstart, hcontent, rfl⟩, rfl⟩
  · obtain ⟨key, bytes, -, hcontent, rfl⟩ := (hmem info).1 hinfo
    exact ⟨s.infoOf key bytes, (stat_eq_ok formed).2 ⟨bytes, hcontent, rfl⟩, rfl, rfl⟩

theorem ListsAsStat.reachable (hlists : s.ListsAsStat start) : s.Reachable start := by
  by_contra hreach
  obtain ⟨error, herror⟩ := list_of_not_reachable hreach
  obtain ⟨infos, hlist, -⟩ := hlists
  rw [herror] at hlist
  cases hlist

theorem ListsAsStat.uncrossed (formed : s.Formed) (hlists : s.ListsAsStat start) :
    s.Uncrossed start := by
  intro a b ha hb hcrossed
  obtain ⟨hnames, hlt⟩ := hcrossed.turned
  obtain ⟨infos, hlist, hsorted, hmem⟩ := list_spec formed hlists.reachable
  obtain ⟨infos', hlist', hbytes, -⟩ := hlists
  obtain rfl : infos = infos' := Except.ok.inj (hlist.symm.trans hlist')
  obtain ⟨hstartA, bytesA, hcontentA⟩ := ha
  obtain ⟨hstartB, bytesB, hcontentB⟩ := hb
  have hinA := (hmem _).2 ⟨a, bytesA, hstartA, hcontentA, rfl⟩
  have hinB := (hmem _).2 ⟨b, bytesB, hstartB, hcontentB, rfl⟩
  have hne : s.listed a bytesA ≠ s.listed b bytesB := by
    intro heq
    have hkey : a = b := congrArg BlobInfo.key heq
    rw [hkey] at hlt
    exact lt_irrefl _ hlt
  -- Both orders hold of the list, so they hold of the two keys in the same direction.
  have hboth : infos.Pairwise fun x y => (x.key < y.key ∧ pathOf x.key < pathOf y.key) ∨
      (y.key < x.key ∧ pathOf y.key < pathOf x.key) :=
    (hbytes.and hsorted).imp fun h => .inl h
  have hsymm : Std.Symm fun x y : BlobInfo =>
      (x.key < y.key ∧ pathOf x.key < pathOf y.key) ∨
        (y.key < x.key ∧ pathOf y.key < pathOf x.key) := ⟨fun _ _ h => h.symm⟩
  obtain ⟨hab, -⟩ | ⟨-, hba⟩ := hboth.forall hinA hinB hne
  · exact lt_asymm (String.lt_iff_toList_lt.1 hab) hlt
  · exact lt_asymm hba hnames

end

/--
For every store content and every prefix, `List` keeps its contract exactly when the
directory of the prefix can be walked (no stored key is a directory above it and no name or
path is longer than the system takes) and no two stored keys with the prefix first differ where
one has a slash and the other a character that sorts before the slash.
-/
theorem lists_as_stat_iff (s : FsStore) (formed : s.Formed) (start : String) :
    s.ListsAsStat start ↔ s.Reachable start ∧ s.Uncrossed start := by
  constructor
  · intro hlists
    exact ⟨hlists.reachable, hlists.uncrossed formed⟩
  · rintro ⟨hreach, huncrossed⟩
    exact listsAsStat_of_uncrossed formed hreach huncrossed

/-! ## A package beside another -/

def twoPackages : FsStore where
  data := ⟨[([['a'], ['x']], [1]), ([['a', '-', 'b']], [2])], [[], [['a']]]⟩

theorem twoPackages_content {p : List Name} {bytes : Bytes}
    (hcontent : twoPackages.data.content p = some bytes) :
    p = [['a'], ['x']] ∨ p = [['a', '-', 'b']] :=
  (List.mem_pair.1 (Tree.mem_files hcontent)).imp (congrArg Prod.fst) (congrArg Prod.fst)

theorem twoPackages_formed : twoPackages.Formed where
  data :=
    { sorted := List.pairwise_pair.2 (by decide)
      valid := fun p bytes hcontent => by
        rcases twoPackages_content hcontent with rfl | rfl
        · exact ⟨by decide, by decide, by decide, by decide +kernel, by decide +kernel⟩
        · exact ⟨by decide, by decide, by decide, by decide +kernel, by decide +kernel⟩
      apart := fun p bytes hcontent => by
        rcases twoPackages_content hcontent with rfl | rfl
        · decide +kernel
        · decide +kernel }
  attrs := Tree.ordered_empty

theorem twoPackages_lists : twoPackages.ListsAsStat "a/" := by
  refine (lists_as_stat_iff twoPackages twoPackages_formed "a/").2
    ⟨⟨by decide +kernel, by decide +kernel, by decide +kernel⟩, ?_⟩
  have honly : ∀ key, twoPackages.Stored "a/" key → pathOf key = [['a'], ['x']] := by
    rintro key ⟨hstart, bytes, hcontent⟩
    refine (twoPackages_content hcontent).resolve_right fun hpath => ?_
    rw [← keyOf_pathOf key, hpath] at hstart
    exact absurd hstart (by decide)
  intro a b ha hb hcrossed
  rw [segments_injective ((honly a ha).trans (honly b hb).symm)] at hcrossed
  exact lt_irrefl _ hcrossed.turned.2

/-- The walk enters the directory before it comes to the name with the dash. -/
theorem list_out_of_order :
    twoPackages.Formed ∧ (twoPackages.list "").map (List.map BlobInfo.key) = .ok ["a/x", "a-b"] ∧
      "a-b" < "a/x" ∧ ¬twoPackages.ListsAsStat "" := by
  refine ⟨twoPackages_formed, by decide +kernel, by decide, fun hlists => ?_⟩
  exact hlists.uncrossed twoPackages_formed "a/x" "a-b" ⟨List.nil_prefix, [1], by decide +kernel⟩
    ⟨List.nil_prefix, [2], by decide +kernel⟩ ⟨['a'], ['x'], ['b'], '-', rfl, rfl, by decide⟩

end FsStore

end FondacoFormal.Storage
