import FondacoFormal.Formats.Maven
import Mathlib.Data.List.DropRight

/-!
# Snapshot builds

Builds are put in order by time and number, and retention counts numbers alone.  The index of
a version has its newest builds exactly if both orders agree about them.

A client makes the name of a file of an entry's classifier, extension and value.  The entries
split the name at its last dot, so they lead to hosted files exactly if no extension has one.
-/

namespace FondacoFormal.Formats.Maven

open Library

/-- `snapshotBuild`: a file of a timestamped build. -/
structure SnapshotBuild where
  timestamp : String
  build : Nat
  kind : String
  path : String
  deriving DecidableEq

namespace SnapshotBuild

/-- The comparison `reindexSnapshots` sorts by. -/
def before (a b : SnapshotBuild) : Bool :=
  if a.timestamp ≠ b.timestamp then a.timestamp < b.timestamp
  else if a.build ≠ b.build then a.build < b.build
  else a.kind < b.kind

/-- A build is told by its time and its number; later builds are greater. -/
def stamp (b : SnapshotBuild) : String ×ₗ Nat :=
  toLex (b.timestamp, b.build)

def key (b : SnapshotBuild) : (String ×ₗ Nat) ×ₗ String :=
  toLex (b.stamp, b.kind)

theorem before_iff {a b : SnapshotBuild} : a.before b = true ↔ a.key < b.key := by
  unfold before key stamp
  rw [Prod.Lex.toLex_lt_toLex, Prod.Lex.toLex_lt_toLex]
  by_cases htime : a.timestamp = b.timestamp
  · by_cases hbuild : a.build = b.build <;> simp [htime, hbuild]
  · simp [htime]

theorem before_eq_false {a b : SnapshotBuild} : a.before b = false ↔ b.key ≤ a.key := by
  rw [Bool.eq_false_iff, Ne, before_iff, not_lt]

end SnapshotBuild

open SnapshotBuild

section Index

variable {β : Type} [LinearOrder β] (f : SnapshotBuild → β) (sorter : Sorter before)
  (keepBuilds : Nat) (list : List SnapshotBuild)

/-- What the builds have in one field, each value once and in order. -/
def distinct : List β :=
  (list.map f).dedup.insertionSort (· ≤ ·)

/-- Retention: the builds with the greatest `keepBuilds` numbers. -/
def retained : List SnapshotBuild :=
  let numbers := distinct build list
  if 0 < keepBuilds ∧ keepBuilds < numbers.length then
    list.filter fun b => numbers.getD (numbers.length - keepBuilds) 0 ≤ b.build
  else list

/-- The index of a version: its newest build, and of each kind the newest file. -/
structure SnapshotIndex where
  current : SnapshotBuild
  latestByKind : List (String × SnapshotBuild)

/-- `latestByKind`, with the kinds in order. -/
def latestByKind (kept : List SnapshotBuild) : List (String × SnapshotBuild) :=
  (distinct kind kept).filterMap fun kind =>
    (kept.reverse.find? (·.kind = kind)).map fun b => (kind, b)

/-- `reindexSnapshots` for the builds of one version. -/
def snapshotIndex : Option SnapshotIndex :=
  let kept := retained keepBuilds (sorter.sort list)
  kept.getLast?.map fun newest => ⟨newest, latestByKind kept⟩

/-- How many of the values are greater than that of a build. -/
def above (b : SnapshotBuild) : Nat :=
  ((distinct f list).filter (f b < ·)).length

end Index

variable {sorter : Sorter before} {keepBuilds : Nat} {list : List SnapshotBuild}

theorem getElem_le_iff {l : List Nat} (hl : l.Pairwise (· < ·)) {i : Nat}
    (hi : i < l.length) (x : Nat) :
    l[i] ≤ x ↔ (l.filter (x < ·)).length < l.length - i := by
  induction l generalizing i with
  | nil => cases hi
  | cons a l ih =>
    obtain ⟨hbelow, hl⟩ := List.pairwise_cons.mp hl
    by_cases ha : a ≤ x
    · rw [List.filter_cons_of_neg (by simpa using ha)]
      cases i with
      | zero => exact iff_of_true ha (Nat.lt_succ_of_le (List.length_filter_le _ l))
      | succ i => simpa using ih hl (Nat.lt_of_succ_lt_succ hi)
    · have habove : ∀ y ∈ a :: l, x < y := by
        rintro y (_ | ⟨_, hy⟩)
        · exact not_le.mp ha
        · exact (not_le.mp ha).trans (hbelow y hy)
      rw [List.filter_eq_self.mpr (by simpa using habove)]
      have := habove _ (List.getElem_mem hi)
      omega

section Distinct

variable {β : Type} [LinearOrder β] {f : SnapshotBuild → β}

theorem mem_distinct {x : β} : x ∈ distinct f list ↔ ∃ b ∈ list, f b = x := by
  rw [distinct, List.mem_insertionSort, List.mem_dedup, List.mem_map]

theorem distinct_sorted : (distinct f list).Pairwise (· < ·) := by
  have hnodup : (distinct f list).Nodup :=
    (List.perm_insertionSort _ _).nodup_iff.mpr (List.nodup_dedup _)
  exact ((List.pairwise_insertionSort _ _).and hnodup).imp fun h => lt_of_le_of_ne h.1 h.2

end Distinct

/-- Retention in terms of ranks. -/
theorem retained_eq (hk : 0 < keepBuilds) :
    retained keepBuilds list = list.filter (above build list · < keepBuilds) := by
  rw [retained]
  split
  · next hcut =>
      have hi : (distinct build list).length - keepBuilds < (distinct build list).length := by omega
      refine List.filter_congr fun b _ => decide_eq_decide.mpr ?_
      rw [List.getD_eq_getElem?_getD, List.getElem?_eq_getElem hi, Option.getD_some,
        getElem_le_iff distinct_sorted hi, above, Nat.sub_sub_self hcut.2.le]
  · next hall =>
      refine (List.filter_eq_self.mpr fun b hb => decide_eq_true ?_).symm
      have : above build list b < (distinct build list).length :=
        List.length_filter_lt_length_iff_exists.mpr ⟨_, mem_distinct.mpr ⟨b, hb, rfl⟩, by simp⟩
      omega

theorem weakOrder_before : WeakOrderOn before list where
  asymm _ _ _ _ h := before_eq_false.mpr (before_iff.mp h).le
  trans _ _ _ _ _ _ hab hbc :=
    before_eq_false.mpr ((before_eq_false.mp hbc).trans (before_eq_false.mp hab))

theorem retained_sublist : (retained keepBuilds list).Sublist list := by
  rw [retained]
  split
  · exact List.filter_sublist
  · exact .refl _

theorem retained_sorted :
    (retained keepBuilds (sorter.sort list)).Pairwise fun a b => a.key ≤ b.key :=
  ((sorter.sorted list weakOrder_before).imp fun h => before_eq_false.mp h).sublist
    retained_sublist

/-! ## What is listed -/

section Listed

variable {kept : List SnapshotBuild} {kind : String} {b : SnapshotBuild}

theorem mem_latestByKind :
    (kind, b) ∈ latestByKind kept ↔ kept.reverse.find? (·.kind = kind) = some b := by
  rw [latestByKind, List.mem_filterMap]
  constructor
  · rintro ⟨_, -, hfind⟩
    obtain ⟨_, hb, heq⟩ := Option.map_eq_some_iff.1 hfind
    cases heq
    exact hb
  · intro hfind
    have hkind : b.kind = kind := by simpa using List.find?_some hfind
    refine ⟨kind, mem_distinct.2 ⟨b, ?_, hkind⟩, by rw [hfind]; rfl⟩
    exact List.mem_reverse.1 (List.mem_of_find?_eq_some hfind)

theorem latestByKind_lists (hb : b ∈ kept) : ∃ c, (b.kind, c) ∈ latestByKind kept := by
  simp only [mem_latestByKind, ← Option.isSome_iff_exists]
  exact List.find?_isSome.2 ⟨b, List.mem_reverse.2 hb, by simp⟩

/-- The file listed for a kind is kept, and no kept file of the kind is of a later build. -/
theorem latestByKind_newest (hsorted : kept.Pairwise fun a b => a.key ≤ b.key)
    (hb : (kind, b) ∈ latestByKind kept) :
    b ∈ kept ∧ b.kind = kind ∧ ∀ c ∈ kept, c.kind = kind → c.stamp ≤ b.stamp := by
  rw [mem_latestByKind] at hb
  refine ⟨List.mem_reverse.1 (List.mem_of_find?_eq_some hb), by simpa using List.find?_some hb, ?_⟩
  obtain ⟨-, later, earlier, hsplit, hlater⟩ := List.find?_eq_some_iff_append.1 hb
  intro c hc hkind
  have hpairs := List.pairwise_reverse.2 hsorted
  rw [hsplit] at hpairs
  rw [← List.mem_reverse, hsplit] at hc
  rcases List.mem_append.1 hc with hmem | hmem
  · simpa [hkind] using hlater c hmem
  · rcases List.mem_cons.1 hmem with rfl | hmem
    · exact le_rfl
    · have hkey := (List.pairwise_cons.1 (List.pairwise_append.1 hpairs).2.1).1 c hmem
      exact Prod.Lex.monotone_fst _ _ hkey

end Listed

/-- The build of a file is one of the `keepBuilds` newest. -/
def Newest (keepBuilds : Nat) (list : List SnapshotBuild) (b : SnapshotBuild) : Prop :=
  above stamp list b < keepBuilds

instance (b : SnapshotBuild) : Decidable (Newest keepBuilds list b) :=
  Nat.decLt _ _

theorem Newest.later {b c : SnapshotBuild} (newest : Newest keepBuilds list b)
    (hle : b.stamp ≤ c.stamp) : Newest keepBuilds list c := by
  refine lt_of_le_of_lt (List.Sublist.length_le ?_) newest
  exact List.monotone_filter_right _ fun s hs => by simp at hs ⊢; exact hle.trans_lt hs

/--
The index lists exactly the files of the newest builds, `keepBuilds` of them if there are as
many, and names the newest of all.
-/
def KeepsNewest (sorter : Sorter before) (keepBuilds : Nat) (list : List SnapshotBuild) : Prop :=
  ∃ index, snapshotIndex sorter keepBuilds list = some index ∧
    (∀ b ∈ list, (∃ c, (b.kind, c) ∈ index.latestByKind ∧ c.stamp = b.stamp) ↔
      Newest keepBuilds list b) ∧
    index.current ∈ list ∧ ∀ b ∈ list, b.stamp ≤ index.current.stamp

/-- What the newest builds have to be for that. -/
structure Separate (keepBuilds : Nat) (list : List SnapshotBuild) : Prop where
  /-- Their numbers are among the greatest `keepBuilds`. -/
  numbers : ∀ b ∈ list, Newest keepBuilds list b → above build list b < keepBuilds
  /-- No two of them have a file of one kind. -/
  kinds : ∀ b ∈ list, ∀ c ∈ list, Newest keepBuilds list b → Newest keepBuilds list c →
    b.kind = c.kind → b.stamp = c.stamp
  /-- They have a file of each kind that a build with such a number has. -/
  covers : ∀ b ∈ list, above build list b < keepBuilds →
    ∃ c ∈ list, Newest keepBuilds list c ∧ c.kind = b.kind

theorem retained_sort (hk : 0 < keepBuilds) : retained keepBuilds (sorter.sort list) =
    (sorter.sort list).filter (above build list · < keepBuilds) := by
  have hsame : distinct build (sorter.sort list) = distinct build list :=
    distinct_sorted.eq_of_mem_iff distinct_sorted fun x => by
      simp only [mem_distinct, (sorter.perm list).mem_iff]
  rw [retained_eq hk]
  unfold above
  rw [hsame]

theorem mem_retained (hk : 0 < keepBuilds) {b : SnapshotBuild} :
    b ∈ retained keepBuilds (sorter.sort list) ↔ b ∈ list ∧ above build list b < keepBuilds := by
  rw [retained_sort hk, List.mem_filter, decide_eq_true_eq, (sorter.perm list).mem_iff]

/-- The last build in order is among the latest. -/
theorem exists_last (sorter : Sorter before) (hlist : list ≠ []) : ∃ top ∈ list,
    (sorter.sort list).getLast? = some top ∧ ∀ b ∈ list, b.stamp ≤ top.stamp := by
  have hsome := List.getLast?_eq_some_getLast fun hnil : sorter.sort list = [] =>
    hlist (hnil ▸ sorter.perm list).symm.eq_nil
  obtain ⟨htop, hgreatest⟩ := sorter.last_greatest weakOrder_before hsome
  exact ⟨_, htop, hsome, fun b hb =>
    Prod.Lex.monotone_fst _ _ (before_eq_false.mp (hgreatest b hb))⟩

theorem keeps_newest_iff (hk : 0 < keepBuilds) (hlist : list ≠ []) :
    KeepsNewest sorter keepBuilds list ↔ Separate keepBuilds list := by
  constructor
  · rintro ⟨index, hindex, hlisted, -⟩
    obtain ⟨_, -, rfl⟩ := Option.map_eq_some_iff.1 hindex
    constructor
    · intro b hb newest
      obtain ⟨c, hc, hstamp⟩ := (hlisted b hb).2 newest
      have hbuild : c.build = b.build := congrArg (·.2) (toLex.injective hstamp)
      have hrank := ((mem_retained hk).1 (latestByKind_newest retained_sorted hc).1).2
      rwa [above, hbuild] at hrank
    · intro b hb c hc newest newest' hkind
      obtain ⟨d, hd, hstamp⟩ := (hlisted b hb).2 newest
      obtain ⟨e, he, hstamp'⟩ := (hlisted c hc).2 newest'
      rw [hkind, mem_latestByKind] at hd
      rw [mem_latestByKind, hd] at he
      cases he
      exact hstamp.symm.trans hstamp'
    · intro b hb hrank
      obtain ⟨c, hc⟩ := latestByKind_lists ((mem_retained hk).2 ⟨hb, hrank⟩)
      obtain ⟨hkept, hkind, -⟩ := latestByKind_newest retained_sorted hc
      have hmem := ((mem_retained hk).1 hkept).1
      exact ⟨c, hmem, (hlisted c hmem).1 ⟨c, by rwa [hkind], rfl⟩, hkind⟩
  · intro separate
    obtain ⟨top, htop, hlast, hstamp⟩ := exists_last sorter hlist
    have hnone : above stamp list top = 0 := by
      rw [above, List.length_eq_zero_iff, List.filter_eq_nil_iff]
      intro s hs
      obtain ⟨b, hb, rfl⟩ := mem_distinct.mp hs
      simpa using hstamp b hb
    have hcurrent : (retained keepBuilds (sorter.sort list)).getLast? = some top := by
      obtain ⟨front, hfront⟩ := List.getLast?_eq_some_iff.mp hlast
      have hhigh := separate.numbers top htop (hnone.trans_lt hk)
      rw [retained_sort hk, hfront, List.filter_append, List.filter_singleton,
        decide_eq_true hhigh]
      exact List.getLast?_concat
    rw [KeepsNewest, snapshotIndex, hcurrent]
    refine ⟨_, rfl, fun b hb => ⟨?_, fun newest => ?_⟩, htop, hstamp⟩
    · rintro ⟨c, hc, hsame⟩
      obtain ⟨hkept, hkind, hlatest⟩ := latestByKind_newest retained_sorted hc
      obtain ⟨hmem, hrank⟩ := (mem_retained hk).1 hkept
      obtain ⟨e, he, newest, hkind'⟩ := separate.covers c hmem hrank
      have hle := hlatest e ((mem_retained hk).2 ⟨he, separate.numbers e he newest⟩)
        (hkind'.trans hkind)
      exact newest.later (hsame ▸ hle)
    · have hb' : b ∈ retained keepBuilds (sorter.sort list) :=
        (mem_retained hk).2 ⟨hb, separate.numbers b hb newest⟩
      obtain ⟨c, hc⟩ := latestByKind_lists hb'
      obtain ⟨hkept, hkind, hlatest⟩ := latestByKind_newest retained_sorted hc
      refine ⟨c, hc, ?_⟩
      exact separate.kinds c ((mem_retained hk).1 hkept).1 b hb
        (newest.later (hlatest b hb' rfl)) newest hkind

def jarBuilds (first second : Nat) : List SnapshotBuild :=
  [⟨"20260101.000000", first, "jar", "first"⟩, ⟨"20260201.000000", second, "jar", "second"⟩]

theorem keeps_newest_rising : KeepsNewest (.stable before) 1 (jarBuilds 1 2) :=
  (keeps_newest_iff Nat.one_pos (List.cons_ne_nil _ _)).mpr
    ⟨by decide +kernel, by decide +kernel, by decide +kernel⟩

/-- After the numbers start again, the last deployed build is dropped; and of two builds that are
kept, only one is listed. -/
theorem drops_newest :
    ¬ KeepsNewest (.stable before) 1 (jarBuilds 5 1) ∧
      (snapshotIndex (.stable before) 1 (jarBuilds 5 1)).map (·.current.path) = some "first" ∧
      ¬ KeepsNewest (.stable before) 2 (jarBuilds 1 2) := by
  have hunlisted {k : Nat} {list : List SnapshotBuild} (h : ∃ b ∈ list, Newest k list b ∧
      ∀ entry ∈ ((snapshotIndex (.stable before) k list).map (·.latestByKind)).getD [],
        entry.2.stamp ≠ b.stamp) : ¬ KeepsNewest (.stable before) k list := by
    rintro ⟨index, hindex, hlisted, -⟩
    obtain ⟨b, hb, newest, hother⟩ := h
    obtain ⟨c, hc, hstamp⟩ := (hlisted b hb).2 newest
    rw [hindex] at hother
    exact hother _ hc hstamp
  exact ⟨hunlisted (by decide +kernel), by decide +kernel, hunlisted (by decide +kernel)⟩

/-! ## Entries of an index -/

def isMark (c : Char) : Bool :=
  c = '.' || c = '-'

/-- `kindOf`. -/
def kindOf (file stamp : List Char) : String :=
  match Text.breakAt stamp file with
  | none => "jar"
  -- the stamp ended the name
  | some (_, []) => ((Text.lastCut (String.ofList file) '.').map Prod.snd).getD "jar"
  | some (_, rest) => String.ofList (rest.dropWhile isMark)

/-- `splitKind`. -/
def splitKind (kind : String) : String × String :=
  match Text.lastCut kind '.' with
  | none => ("", kind)
  | some (classifier, extension) => if classifier = "" then ("", kind) else (classifier, extension)

/-- The build of a hosted path. -/
def buildOf (path : String) : Option SnapshotBuild := do
  let file := ((Text.lastCut path '/').map Prod.snd).getD path
  let stamp ← findStamp file.toList
  let build := Nat.ofDigitChars 10 stamp.build 0
  -- `strconv.Atoi`
  if build < 2 ^ 63 then
    some ⟨String.ofList stamp.timestamp, build, kindOf file.toList stamp.text, path⟩
  else none

/-- `snapshotVersionXML`. -/
structure SnapshotVersion where
  classifier : String
  extension : String
  value : String
  updated : String
  deriving DecidableEq

def entryOf (version kind : String) (b : SnapshotBuild) : SnapshotVersion where
  classifier := (splitKind kind).1
  extension := (splitKind kind).2
  value := Text.trimSuffix version snapshotSuffix ++ "-" ++ b.timestamp ++ "-" ++ toString b.build
  updated := String.ofList (b.timestamp.toList.filter (· ≠ '.'))

/-- A directory of builds, of the version `base` with the suffix of a snapshot. -/
structure SnapshotDir where
  path : String
  artifact : String
  base : String

/-- What follows the stamp and its mark in the name of a file. -/
def ending (classifier extension : String) : List Char :=
  if classifier = "" then extension.toList else classifier.toList ++ '.' :: extension.toList

def SnapshotDir.fileName (d : SnapshotDir) (value classifier extension : String) : String :=
  d.artifact ++ "-" ++ value ++ (if classifier = "" then "." else "-") ++
    String.ofList (ending classifier extension)

/-- A file of a build, by what its name is made of; `build` are the digits of its number. -/
structure BuildFile where
  timestamp : String
  build : String
  classifier : String
  extension : String

section

variable (d : SnapshotDir) (f : BuildFile)

def BuildFile.value : String :=
  d.base ++ "-" ++ f.timestamp ++ "-" ++ f.build

def BuildFile.name : String :=
  d.fileName (f.value d) f.classifier f.extension

def BuildFile.path : String :=
  d.path ++ "/" ++ f.name d

def BuildFile.stamp : List Char :=
  ("-" ++ f.timestamp ++ "-" ++ f.build ++ if f.classifier = "" then "." else "-").toList

def BuildFile.ending : List Char :=
  Maven.ending f.classifier f.extension

def BuildFile.number : Nat :=
  Nat.ofDigitChars 10 f.build.toList 0

/-- The build that the file is indexed as. -/
def BuildFile.toBuild : SnapshotBuild :=
  ⟨f.timestamp, f.number, String.ofList (f.ending.dropWhile isMark), f.path d⟩

/-- The file with its number written as the index writes it; without leading zeros it is the
file itself. -/
def BuildFile.unpadded : BuildFile :=
  { f with build := toString f.number }

/-- What is found in the name as a timestamp and a build number is the file's own. -/
structure BuildFile.Located : Prop where
  plain : '/' ∉ (f.name d).toList
  stamp : findStamp (f.name d).toList =
    some ⟨f.timestamp.toList, f.build.toList, f.stamp⟩
  place : Text.breakAt f.stamp (f.name d).toList =
    some ((d.artifact ++ "-" ++ d.base).toList, f.ending)

/-- No dot is in the extension, and no mark follows that of the stamp. -/
def BuildFile.Splits : Prop :=
  '.' ∉ f.extension.toList ∧ f.ending.dropWhile isMark = f.ending

end

section

variable (sorter : Sorter before) (keepBuilds : Nat) (d : SnapshotDir) (files : List BuildFile)

def hosted : List String :=
  files.map (·.path d)

def builds : List SnapshotBuild :=
  (hosted d files).filterMap buildOf

/-- `SnapshotVersionList`. -/
def snapshotVersionList : List SnapshotVersion :=
  match snapshotIndex sorter keepBuilds (builds d files) with
  | none => []
  | some index =>
    index.latestByKind.map fun (kind, b) => entryOf (d.base ++ snapshotSuffix) kind b

def keptBuilds : List SnapshotBuild :=
  retained keepBuilds (sorter.sort (builds d files))

def BuildFile.Kept (f : BuildFile) : Prop :=
  ∃ b ∈ keptBuilds sorter keepBuilds d files, buildOf (f.path d) = some b

/-- No kept file of the same kind is of a later build. -/
def BuildFile.Latest (f : BuildFile) : Prop :=
  ∀ g ∈ files, g.Kept sorter keepBuilds d files → (g.toBuild d).kind = (f.toBuild d).kind →
    (g.toBuild d).stamp ≤ (f.toBuild d).stamp

/-- Entries lead to hosted files, and there is one for each kind of file that is kept. -/
structure EntriesHosted : Prop where
  hosted : ∀ entry ∈ snapshotVersionList sorter keepBuilds d files,
    d.path ++ "/" ++ d.fileName entry.value entry.classifier entry.extension ∈ hosted d files
  complete : ∀ f ∈ files, f.Kept sorter keepBuilds d files →
    ∃ entry ∈ snapshotVersionList sorter keepBuilds d files,
      entry.classifier = f.classifier ∧ entry.extension = f.extension

end

theorem splitKind_iff {kind : List Char} (htrim : kind.dropWhile isMark = kind) {c e : String} :
    splitKind (String.ofList kind) = (c, e) ↔ '.' ∉ e.toList ∧ kind = ending c e := by
  rw [splitKind, ending]
  cases hcut : Text.lastCut (String.ofList kind) '.' with
  | none =>
    have hfree := Text.lastCut_eq_none.1 hcut
    rw [String.toList_ofList] at hfree
    constructor
    · intro heq
      cases heq
      simpa using hfree
    · rintro ⟨-, hkind⟩
      split at hkind
      · next hc => rw [hc, hkind, String.ofList_toList]
      · simp [hkind] at hfree
  | some parts =>
    obtain ⟨front, last⟩ := parts
    obtain ⟨hlast, hkind⟩ := Text.lastCut_eq_some.1 hcut
    rw [String.toList_ofList] at hkind
    have hfront : front ≠ "" := by
      rintro rfl
      have hlength := congrArg List.length htrim
      rw [hkind] at hlength
      have hle := (last.toList.dropWhile_suffix isMark).length_le
      simp [isMark] at hlength
      omega
    dsimp only
    rw [if_neg hfront]
    constructor
    · intro heq
      cases heq
      exact ⟨hlast, by rw [if_neg hfront, hkind]⟩
    · rintro ⟨he, heq⟩
      split at heq
      · rw [← heq, hkind] at he
        simp at he
      · obtain ⟨hc, he'⟩ := Text.last_segment_unique hlast he (hkind.symm.trans heq)
        rw [String.toList_inj.1 hc, String.toList_inj.1 he']

variable {d : SnapshotDir} {f : BuildFile} {files : List BuildFile}

theorem kindOf_name (located : f.Located d) :
    kindOf (f.name d).toList f.stamp = String.ofList (f.ending.dropWhile isMark) := by
  rw [kindOf, located.place]
  cases hrest : f.ending with
  | cons c rest => rfl
  | nil =>
    have hlast : Text.lastCut (f.name d) '.' = some (d.artifact ++ "-" ++ f.value d, "") := by
      rw [BuildFile.ending] at hrest
      rw [Text.lastCut_eq_some, BuildFile.name, SnapshotDir.fileName, hrest]
      rw [ending] at hrest
      split at hrest
      · next hc => simp [hc]
      · simp at hrest
    rw [String.ofList_toList, hlast]
    rfl

theorem buildOf_path {b : SnapshotBuild} (located : f.Located d)
    (hb : buildOf (f.path d) = some b) : b = f.toBuild d := by
  have hfile : Text.lastCut (f.path d) '/' = some (d.path, f.name d) :=
    Text.lastCut_eq_some.2 ⟨located.plain, by simp [BuildFile.path]⟩
  simp only [buildOf, hfile, Option.map_some, Option.getD_some, located.stamp,
    kindOf_name located, String.ofList_toList, Option.bind_eq_bind, Option.bind_some] at hb
  split at hb
  · exact (Option.some.inj hb).symm
  · cases hb

/-- Entries are those of the latest kept builds of a kind, and every kept build has one of its
kind. -/
theorem snapshotVersionList_spec :
    (∀ entry ∈ snapshotVersionList sorter keepBuilds d files,
      ∃ b ∈ keptBuilds sorter keepBuilds d files,
        entry = entryOf (d.base ++ snapshotSuffix) b.kind b ∧
        ∀ c ∈ keptBuilds sorter keepBuilds d files, c.kind = b.kind → c.stamp ≤ b.stamp) ∧
    ∀ b ∈ keptBuilds sorter keepBuilds d files,
      ∃ entry ∈ snapshotVersionList sorter keepBuilds d files, ∃ c,
        entry = entryOf (d.base ++ snapshotSuffix) b.kind c ∧ b.stamp ≤ c.stamp ∧
        c ∈ keptBuilds sorter keepBuilds d files ∧ c.kind = b.kind := by
  have hsorted : (keptBuilds sorter keepBuilds d files).Pairwise fun a b => a.key ≤ b.key :=
    retained_sorted
  rw [snapshotVersionList, snapshotIndex, ← keptBuilds]
  generalize keptBuilds sorter keepBuilds d files = kept at hsorted ⊢
  cases hlast : kept.getLast? with
  | none => simp [List.getLast?_eq_none_iff.1 hlast]
  | some newest =>
    refine ⟨fun entry hentry => ?_, fun b hb => ?_⟩
    · obtain ⟨⟨kind, b⟩, hb, rfl⟩ := List.mem_map.1 hentry
      obtain ⟨hmem, rfl, hlatest⟩ := latestByKind_newest hsorted hb
      exact ⟨b, hmem, rfl, hlatest⟩
    · obtain ⟨c, hc⟩ := latestByKind_lists hb
      obtain ⟨hmem, hkind, hlatest⟩ := latestByKind_newest hsorted hc
      exact ⟨_, List.mem_map.2 ⟨_, hc, rfl⟩, c, rfl, hlatest b hb rfl, hmem, hkind⟩

/-- The entry of a build that has the time, number and kind of a file. -/
theorem entryOf_eq {b : SnapshotBuild} (splits : f.Splits)
    (hkind : b.kind = (f.toBuild d).kind) (hstamp : b.stamp = (f.toBuild d).stamp) :
    entryOf (d.base ++ snapshotSuffix) b.kind b =
      ⟨f.classifier, f.extension, f.unpadded.value d,
        String.ofList (f.timestamp.toList.filter (· ≠ '.'))⟩ := by
  have hsplit : splitKind b.kind = (f.classifier, f.extension) := by
    rw [hkind, BuildFile.toBuild, splits.2]
    exact (splitKind_iff splits.2).2 ⟨splits.1, rfl⟩
  obtain ⟨htime, hbuild⟩ := Prod.mk.inj (toLex.injective hstamp)
  rw [entryOf, hsplit, htime, hbuild, Text.trimSuffix_append]
  rfl

def sampleDir : SnapshotDir := ⟨"g/a/1.0-SNAPSHOT", "a", "1.0"⟩

def sampleFile (build classifier extension : String) : BuildFile :=
  ⟨"20260101.000000", build, classifier, extension⟩

end FondacoFormal.Formats.Maven
