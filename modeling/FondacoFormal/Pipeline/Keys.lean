import FondacoFormal.Access.Config
import FondacoFormal.Library.Paths
import FondacoFormal.Pipeline.Projection

/-!
# Keys of a feed's objects

`Publish` and `WriteReplicatedManifest` write below `manifests/<feed>/`, `PutIndex` below
`meta/<feed>/`.
-/

namespace FondacoFormal.Pipeline

open Library.Paths Repl

/-! ## What `path.Clean` leaves -/

/-- What cleaning has kept, the last segment first: names, and below them the `..` that had
nothing to take away. -/
def Normal (kept : List (List Char)) : Prop :=
  ∃ names n, kept = names ++ List.replicate n ['.', '.'] ∧
    ∀ s ∈ names, Proper s ∧ '/' ∉ s

variable {kept : List (List Char)}

theorem Normal.cleanSegment (hkept : Normal kept) {segment : List Char} (hfree : '/' ∉ segment) :
    Normal (cleanSegment false kept segment) := by
  obtain ⟨names, n, rfl, hnames⟩ := hkept
  rw [Pipeline.cleanSegment.eq_def]
  split
  · exact ⟨names, n, rfl, hnames⟩
  · next hplain =>
      split
      · next hup =>
          cases names with
          | nil =>
            cases n with
            | zero => exact ⟨[], 1, by simp [hup], by simp⟩
            | succ n =>
              refine ⟨[], n + 2, ?_, by simp⟩
              simp [List.replicate_succ, hup]
          | cons first rest =>
            have hfirst := (hnames first List.mem_cons_self).1.2.2
            simp only [List.cons_append, if_neg hfirst]
            exact ⟨rest, n, rfl, fun s hs => hnames s (List.mem_cons_of_mem _ hs)⟩
      · next hup =>
          push Not at hplain
          refine ⟨segment :: names, n, rfl, fun s hs => ?_⟩
          obtain rfl | hs := List.mem_cons.1 hs
          · exact ⟨⟨hplain.1, hplain.2, hup⟩, hfree⟩
          · exact hnames s hs

variable {names : List (List Char)}

theorem Normal.foldl (hkept : Normal kept) (hfree : ∀ s ∈ names, '/' ∉ s) :
    Normal (names.foldl (Pipeline.cleanSegment false) kept) := by
  induction names generalizing kept with
  | nil => exact hkept
  | cons s names ih =>
    exact ih (hkept.cleanSegment (hfree s List.mem_cons_self))
      fun t ht => hfree t (List.mem_cons_of_mem _ ht)

theorem foldl_cleanSegment_of_proper {rooted : Bool} (hnames : ∀ s ∈ names, Proper s) :
    names.foldl (cleanSegment rooted) kept = names.reverse ++ kept := by
  induction names generalizing kept with
  | nil => rfl
  | cons s names ih =>
    obtain ⟨hempty, hdot, hup⟩ := hnames s List.mem_cons_self
    rw [List.foldl_cons, ih fun t ht => hnames t (List.mem_cons_of_mem _ ht),
      cleanSegment.eq_def, if_neg (not_or.2 ⟨hempty, hdot⟩), if_neg hup]
    simp

def keptOf (p : String) : List (List Char) :=
  (segments p.toList).foldl (cleanSegment false) []

theorem kept_keptOf (p : String) : Normal (keptOf p) :=
  Normal.foldl ⟨[], 0, rfl, by simp⟩ fun _ hs => slash_not_mem_segment hs

theorem pathClean_eq (p : String) (hrel : p.toList.head? ≠ some '/') :
    pathClean p =
      if ['/'].intercalate (keptOf p).reverse = [] then "."
      else String.ofList (['/'].intercalate (keptOf p).reverse) := by
  rw [pathClean]
  simp only [hrel, decide_false, if_false, keptOf, segments]
  exact if_congr Iff.rfl rfl rfl

theorem Normal.slash_not_mem (hkept : Normal kept) : ∀ s ∈ kept.reverse, '/' ∉ s := by
  obtain ⟨names, n, rfl, hnames⟩ := hkept
  intro s hs
  obtain hs | hs := List.mem_append.1 (List.mem_reverse.1 hs)
  · exact (hnames s hs).2
  · simp [List.eq_of_mem_replicate hs]

variable {p : String}

theorem segments_pathClean (hrel : p.toList.head? ≠ some '/') (hbody : pathClean p ≠ ".") :
    segments (pathClean p).toList = (keptOf p).reverse := by
  rw [pathClean_eq p hrel] at hbody ⊢
  by_cases hempty : ['/'].intercalate (keptOf p).reverse = []
  · rw [if_pos hempty] at hbody
    exact absurd rfl hbody
  · rw [if_neg hempty, String.toList_ofList]
    refine segments_intercalate (kept_keptOf p).slash_not_mem fun hnil => hempty ?_
    rw [hnil]
    rfl

theorem relative_of_proper (hproper : ∀ s ∈ segments p.toList, Proper s) :
    p.toList.head? ≠ some '/' := by
  intro hhead
  obtain ⟨rest, hrest⟩ := List.head?_eq_some_iff.1 hhead
  have hmem : [] ∈ segments p.toList := by
    rw [hrest, ← List.nil_append ('/' :: rest), segments_append_slash]
    exact List.mem_append_left _ (by decide)
  exact (hproper [] hmem).1 rfl

theorem pathClean_of_proper (hproper : ∀ s ∈ segments p.toList, Proper s) : pathClean p = p := by
  have hrel := relative_of_proper hproper
  have hkept : (keptOf p).reverse = segments p.toList := by
    rw [keptOf, foldl_cleanSegment_of_proper hproper, List.append_nil, List.reverse_reverse]
  rw [pathClean_eq p hrel, hkept, intercalate_segments, if_neg, String.ofList_toList]
  intro hnil
  refine (hproper [] ?_).1 rfl
  rw [hnil]
  decide

/-! ## What `validRemotePath` accepts -/

/-- A relative path that is clean and starts with no `..` has names only. -/
theorem proper_of_pathClean (hrel : p.toList.head? ≠ some '/') (hclean : pathClean p = p)
    (hdot : p ≠ ".") (hup : p ≠ "..") (hbelow : ¬['.', '.', '/'] <+: p.toList) :
    ∀ s ∈ segments p.toList, Proper s := by
  have hsegments := segments_pathClean hrel (by rwa [hclean])
  rw [hclean] at hsegments
  obtain ⟨names, n, hkept, hnames⟩ := kept_keptOf p
  rw [hkept, List.reverse_append, List.reverse_replicate] at hsegments
  cases n with
  | zero =>
    rw [hsegments]
    exact fun s hs => (hnames s (by simpa using hs)).1
  | succ n =>
    exfalso
    rw [List.replicate_succ, List.cons_append] at hsegments
    have htext := intercalate_segments p.toList
    rw [hsegments] at htext
    cases hrest : List.replicate n ['.', '.'] ++ names.reverse with
    | nil =>
      rw [hrest] at htext
      exact hup (String.toList_inj.1 (htext.symm.trans (by decide)))
    | cons first rest =>
      rw [hrest, List.intercalate_cons_cons] at htext
      exact hbelow ⟨['/'].intercalate (first :: rest), htext⟩

theorem validRemotePath_iff (p : String) :
    validRemotePath p = true ↔ p = ".." ∨ ∀ s ∈ segments p.toList, Proper s := by
  constructor
  · intro hvalid
    rw [validRemotePath] at hvalid
    simp only [Bool.and_eq_true, Bool.not_eq_true', Bool.or_eq_false_iff, decide_eq_false_iff_not,
      not_not] at hvalid
    obtain ⟨⟨hempty, hrel⟩, ⟨hclean, hdot⟩, hbelow⟩ := hvalid
    by_cases hup : p = ".."
    · exact .inl hup
    · rw [hclean] at hdot hbelow
      refine .inr (proper_of_pathClean hrel hclean hdot hup fun h => ?_)
      rw [List.isPrefixOf_iff_prefix.2 h] at hbelow
      cases hbelow
  · rintro (rfl | hproper)
    · decide
    · have hclean := pathClean_of_proper hproper
      rw [validRemotePath, hclean]
      have hne : p ≠ "" := by
        rintro rfl
        exact (hproper [] (by decide)).1 rfl
      have hdot : p ≠ "." := by
        rintro rfl
        exact (hproper ['.'] (by decide)).2.1 rfl
      have hrel := relative_of_proper hproper
      have hbelow : ['.', '.', '/'].isPrefixOf p.toList = false := by
        by_contra hstart
        obtain ⟨rest, hrest⟩ := List.isPrefixOf_iff_prefix.1 (Bool.not_eq_false _ ▸ hstart)
        refine (hproper ['.', '.'] ?_).2.2 rfl
        rw [← hrest, show ['.', '.', '/'] ++ rest = ['.', '.'] ++ '/' :: rest from rfl,
          segments_append_slash]
        exact List.mem_append_left _ (by decide)
      simp [hne, hdot, hrel, hbelow]

/-! ## The writes -/

inductive FeedWrite where
  /-- `Publish`, and whether the blob was staged. -/
  | publish (req : PublishRequest) (staged : Bool)
  /-- `PutIndex`. -/
  | putIndex (feed path : String)
  /-- `WriteReplicatedManifest`. -/
  | writeReplicatedManifest (write : ProjectionWrite)

namespace FeedWrite

def feed : FeedWrite → String
  | publish req _ => req.feed
  | putIndex feed _ => feed
  | writeReplicatedManifest write => write.feed

def path : FeedWrite → String
  | publish req _ => req.path
  | putIndex _ path => path
  | writeReplicatedManifest write => write.path

def tree : FeedWrite → String
  | publish .. | writeReplicatedManifest _ => "manifests"
  | putIndex .. => "meta"

def key (w : FeedWrite) : String :=
  w.tree ++ "/" ++ w.feed ++ "/" ++ w.path

/-- The write gets past its checks.  `Publish` and `PutIndex` are given a feed of the
configuration, whose name was checked when it was loaded. -/
def passes : FeedWrite → Bool
  | publish req staged => Access.validFeedName req.feed && precheck req staged = none
  | putIndex feed path => Access.validFeedName feed && validRemotePath path
  | writeReplicatedManifest write => replicatedTarget write.feed write.path

def Contained (w : FeedWrite) : Prop :=
  ∃ rest, rest ≠ "" ∧ pathClean w.key = w.tree ++ "/" ++ w.feed ++ "/" ++ rest

def Named (w : FeedWrite) : Prop :=
  w.feed ≠ "." ∧ w.feed ≠ ".." ∧ w.path ≠ ".."

/-! ## Where the keys lie -/

theorem slash_not_mem_of_validFeedName {name : String}
    (hname : Access.validFeedName name = true) : name ≠ "" ∧ '/' ∉ name.toList := by
  rw [Access.validFeedName, Bool.and_eq_true, Bool.and_eq_true, List.all_eq_true] at hname
  obtain ⟨⟨hall, hhead⟩, -⟩ := hname
  constructor
  · rintro rfl
    exact absurd hhead (by decide)
  · intro hmem
    exact absurd (hall '/' hmem) (by decide)

variable {w : FeedWrite}

theorem passes_spec (hpasses : w.passes = true) :
    (w.feed ≠ "" ∧ '/' ∉ w.feed.toList) ∧
      (w.path = ".." ∨ ∀ s ∈ segments w.path.toList, Proper s) := by
  cases w with
  | publish req staged =>
    rw [passes, Bool.and_eq_true, decide_eq_true_eq, precheck] at hpasses
    obtain ⟨hname, hcheck⟩ := hpasses
    refine ⟨slash_not_mem_of_validFeedName hname, (validRemotePath_iff _).1 ?_⟩
    by_contra hinvalid
    have hpath : (!validRemotePath req.path) = true := by simpa [path] using hinvalid
    rw [if_pos hpath] at hcheck
    split at hcheck <;> cases hcheck
  | putIndex feed path =>
    rw [passes, Bool.and_eq_true] at hpasses
    exact ⟨slash_not_mem_of_validFeedName hpasses.1, (validRemotePath_iff _).1 hpasses.2⟩
  | writeReplicatedManifest write =>
    rw [passes, replicatedTarget, Bool.and_eq_true, Bool.and_eq_true, List.all_eq_true] at hpasses
    obtain ⟨⟨hvalid, hne⟩, hall⟩ := hpasses
    refine ⟨⟨of_decide_eq_true hne, fun hmem => ?_⟩, (validRemotePath_iff _).1 hvalid⟩
    exact absurd (hall '/' hmem) (by decide)

theorem proper_tree (w : FeedWrite) : Proper w.tree.toList ∧ '/' ∉ w.tree.toList := by
  have hmanifests : Proper "manifests".toList ∧ '/' ∉ "manifests".toList := by decide
  have hmeta : Proper "meta".toList ∧ '/' ∉ "meta".toList := by decide
  cases w with
  | publish => exact hmanifests
  | putIndex => exact hmeta
  | writeReplicatedManifest => exact hmanifests

theorem segments_below (w : FeedWrite) (hfree : '/' ∉ w.feed.toList) (rest : String) :
    segments (w.tree ++ "/" ++ w.feed ++ "/" ++ rest).toList =
      w.tree.toList :: w.feed.toList :: segments rest.toList := by
  have htext : (w.tree ++ "/" ++ w.feed ++ "/" ++ rest).toList =
      w.tree.toList ++ '/' :: (w.feed.toList ++ '/' :: rest.toList) := by
    simp [String.toList_append]
  rw [htext, segments_append_slash, segments_append_slash,
    segments_of_not_mem w.proper_tree.2, segments_of_not_mem hfree]
  rfl

theorem pathClean_key (hpasses : w.passes = true) (hnamed : w.Named) : pathClean w.key = w.key := by
  obtain ⟨⟨hne, hfree⟩, hup | hproper⟩ := passes_spec hpasses
  · exact absurd hup hnamed.2.2
  · refine pathClean_of_proper fun s hs => ?_
    rw [key, segments_below w hfree, List.mem_cons, List.mem_cons] at hs
    obtain rfl | rfl | hs := hs
    · exact w.proper_tree.1
    · exact ⟨fun h => hne (String.toList_inj.1 h), fun h => hnamed.1 (String.toList_inj.1 h),
        fun h => hnamed.2.1 (String.toList_inj.1 h)⟩
    · exact hproper s hs

theorem Named.contained (hpasses : w.passes = true) (hnamed : w.Named) : w.Contained := by
  refine ⟨w.path, ?_, pathClean_key hpasses hnamed⟩
  rintro hempty
  obtain ⟨-, hup | hproper⟩ := passes_spec hpasses
  · rw [hempty] at hup
    exact absurd hup (by decide)
  · rw [hempty] at hproper
    exact (hproper [] (by decide)).1 rfl

theorem relative_key (w : FeedWrite) : w.key.toList.head? ≠ some '/' := by
  have htext : w.key.toList = w.tree.toList ++ ("/" ++ w.feed ++ "/" ++ w.path).toList := by
    simp [key, String.toList_append]
  rw [htext]
  cases w <;> simp [tree]

theorem Contained.keptOf (hfree : '/' ∉ w.feed.toList) (hin : w.Contained) :
    ∃ rest, (keptOf w.key).reverse = w.tree.toList :: w.feed.toList :: rest := by
  obtain ⟨rest, -, hclean⟩ := hin
  have hsegments := segments_below w hfree rest
  rw [← hclean, segments_pathClean w.relative_key] at hsegments
  · exact ⟨_, hsegments⟩
  · intro hdot
    have hdots : segments ".".toList = [['.']] := by decide
    rw [hdot, hdots] at hsegments
    exact absurd (List.cons.inj hsegments).2.symm (List.cons_ne_nil _ _)

theorem Contained.named (hpasses : w.passes = true) (hin : w.Contained) : w.Named := by
  obtain ⟨⟨hne, hfree⟩, -⟩ := passes_spec hpasses
  obtain ⟨rest, hrest⟩ := hin.keptOf hfree
  have hproper : Proper w.feed.toList := by
    obtain ⟨names, n, hkept, hnames⟩ := kept_keptOf w.key
    rw [hkept, List.reverse_append, List.reverse_replicate] at hrest
    cases n with
    | zero =>
      refine (hnames _ (List.mem_reverse.1 ?_)).1
      rw [List.replicate_zero, List.nil_append] at hrest
      rw [hrest]
      exact List.mem_cons_of_mem _ List.mem_cons_self
    | succ n =>
      rw [List.replicate_succ, List.cons_append] at hrest
      exact absurd (List.cons.inj hrest).1.symm w.proper_tree.1.2.2
  refine ⟨fun h => hproper.2.1 (by rw [h]; rfl), fun h => hproper.2.2 (by rw [h]; rfl), ?_⟩
  intro hup
  -- The step up takes the feed away again.
  have htwo : ∀ s ∈ [w.tree.toList, w.feed.toList], Proper s := by
    simp [w.proper_tree.1, hproper]
  have hkept : Pipeline.keptOf w.key = [w.tree.toList] := by
    rw [Pipeline.keptOf, key, segments_below w hfree, hup,
      show segments "..".toList = [['.', '.']] by decide,
      show w.tree.toList :: w.feed.toList :: [['.', '.']] =
        [w.tree.toList, w.feed.toList] ++ [['.', '.']] from rfl,
      List.foldl_append, foldl_cleanSegment_of_proper htwo]
    simp [cleanSegment, hproper.2.2]
  rw [hkept] at hrest
  exact absurd (List.cons.inj hrest).2.symm (List.cons_ne_nil _ _)

theorem same_target {a b : FeedWrite} (ha : a.passes = true) (hb : b.passes = true)
    (hna : a.Named) (hnb : b.Named) (heq : pathClean a.key = pathClean b.key) :
    (a.feed, a.path) = (b.feed, b.path) := by
  rw [pathClean_key ha hna, pathClean_key hb hnb] at heq
  have hsegments := segments_below a (passes_spec ha).1.2 a.path
  rw [← key, heq, key, segments_below b (passes_spec hb).1.2 b.path] at hsegments
  obtain ⟨-, hrest⟩ := List.cons.inj hsegments
  obtain ⟨hfeed, hpath⟩ := List.cons.inj hrest
  rw [String.toList_inj.1 hfeed, String.toList_inj.1 (segments_injective hpath)]

/--
Of two writes that get past their checks, both lie in the directory of their feed and
apart from each other exactly when neither feed is `.` or `..` and neither path is `..`.
-/
theorem keys_contained_iff (a b : FeedWrite) (ha : a.passes = true) (hb : b.passes = true) :
    (a.Contained ∧ b.Contained ∧
        ((a.feed, a.path) ≠ (b.feed, b.path) → pathClean a.key ≠ pathClean b.key)) ↔
      a.Named ∧ b.Named := by
  constructor
  · rintro ⟨hina, hinb, -⟩
    exact ⟨hina.named ha, hinb.named hb⟩
  · rintro ⟨hna, hnb⟩
    exact ⟨hna.contained ha, hnb.contained hb,
      fun hne heq => hne (same_target ha hb hna hnb heq)⟩

def sentManifest (feed path : String) : FeedWrite :=
  .writeReplicatedManifest ⟨feed, path, "ab", 1, [], {}, "east", "ci"⟩

theorem keys_of_two_feeds :
    (sentManifest "pypi" "a/1.whl").Contained ∧ (FeedWrite.putIndex "pypi" "a/1.whl").Contained ∧
      (((sentManifest "pypi" "a/1.whl").feed, (sentManifest "pypi" "a/1.whl").path) ≠
          ((FeedWrite.putIndex "pypi" "a/1.whl").feed, (FeedWrite.putIndex "pypi" "a/1.whl").path) →
        pathClean (sentManifest "pypi" "a/1.whl").key ≠
          pathClean (FeedWrite.putIndex "pypi" "a/1.whl").key) :=
  (keys_contained_iff (sentManifest "pypi" "a/1.whl") (.putIndex "pypi" "a/1.whl")
    (by decide +kernel) (by decide +kernel)).2
    ⟨⟨by decide, by decide, by decide⟩, ⟨by decide, by decide, by decide⟩⟩

/-- A peer names the feed `..`, and the path leads into the manifests of another feed. -/
theorem key_escapes_the_feed :
    (sentManifest ".." "manifests/pypi/a/1.whl").passes = true ∧
      (sentManifest "pypi" "a/1.whl").passes = true ∧
      ¬(sentManifest ".." "manifests/pypi/a/1.whl").Contained ∧
      pathClean (sentManifest ".." "manifests/pypi/a/1.whl").key =
        pathClean (sentManifest "pypi" "a/1.whl").key := by
  have hpasses : (sentManifest ".." "manifests/pypi/a/1.whl").passes = true := by decide +kernel
  refine ⟨hpasses, by decide +kernel, fun hin => ?_, by decide +kernel⟩
  exact (hin.named hpasses).2.1 rfl

end FeedWrite

end FondacoFormal.Pipeline
