import FondacoFormal.Formats.MavenMerge

/-!
# The order of Maven versions

Versions are compared segment by segment.  A qualifier comes before nothing and nothing before a
number, but a number and a qualifier are compared as texts, so that three versions can come each
before the next.
-/

namespace FondacoFormal.Formats.Maven

open Library

/-! ## Segments as keys -/

def place (x : String) : Nat :=
  if x = "" then 1 else if (atoi x).isSome then 2 else 0

def qualifier (x : String) : String :=
  if (atoi x).isSome then "" else x

def segmentOrder : String → String → Ordering :=
  compareLex (compareOn place)
    (compareLex (compareOn fun x => (atoi x).getD 0) (compareOn qualifier))

instance : Std.TransCmp segmentOrder :=
  inferInstanceAs (Std.TransCmp (compareLex _ (compareLex _ _)))

theorem compareSegments_missing {x : String} (hx : x ≠ "") :
    compareSegments "" x = (if (atoi x).isSome then .lt else .gt) ∧
      segmentOrder "" x = (if (atoi x).isSome then .lt else .gt) := by
  have hempty : atoi "" = none := rfl
  simp only [compareSegments, compareTexts, segmentOrder, compareLex, compareOn, place, qualifier]
  cases hatoi : atoi x <;> simp [hempty, hx, hx.symm] <;> rfl

theorem compareSegments_eq {x y : String} (hx : x ≠ "") (hy : y ≠ "")
    (h : (atoi x).isSome = (atoi y).isSome) : compareSegments x y = segmentOrder x y := by
  simp only [compareSegments, segmentOrder, compareLex, compareOn, place, qualifier, hx, hy, h]
  rcases hxn : atoi x with _ | xn <;> rcases hyn : atoi y with _ | yn <;> rw [hxn, hyn] at h
  · rcases lt_trichotomy x y with hlt | rfl | hgt
    · simp [compareTexts, hx, hy, hlt, hlt.ne, compare_lt_iff_lt.mpr hlt]
    · simp [compareTexts]
    · simp [compareTexts, hx, hy, hgt.asymm, hgt.ne', compare_gt_iff_gt.mpr hgt]
  · cases h
  · cases h
  · simp

/-- `compareVersions` on the segments of two versions. -/
def compareSplit (as bs : List String) : Ordering :=
  (List.zipWithAll (fun x y => compareSegments (x.getD "") (y.getD "")) as bs).foldr
    Ordering.then .eq

/-- Where two versions first differ, numbers meet numbers and qualifiers meet qualifiers. -/
def UnmixedSplit : List String → List String → Prop
  | x :: as, y :: bs => (atoi x).isSome = (atoi y).isSome ∧
      (compareSegments x y = .eq → UnmixedSplit as bs)
  | _, _ => True

instance UnmixedSplit.decide : (as bs : List String) → Decidable (UnmixedSplit as bs)
  | _ :: as, _ :: bs =>
    have := UnmixedSplit.decide as bs
    inferInstanceAs (Decidable (_ ∧ _))
  | [], _ | _ :: _, [] => .isTrue trivial

theorem compareSplit_eq {as bs : List String} (ha : ∀ x ∈ as, x ≠ "") (hb : ∀ y ∈ bs, y ≠ "")
    (h : UnmixedSplit as bs) :
    compareSplit as bs = List.compareLex segmentOrder (as ++ [""]) (bs ++ [""]) := by
  have hnil {bs : List String} (hb : ∀ y ∈ bs, y ≠ "") :
      compareSplit [] bs = List.compareLex segmentOrder [""] (bs ++ [""]) := by
    cases bs with
    | nil => decide
    | cons y bs =>
      obtain ⟨hcompare, horder⟩ := compareSegments_missing (hb y List.mem_cons_self)
      simp only [compareSplit, List.zipWithAll, List.map_cons, List.foldr_cons, Option.getD,
        List.cons_append, List.compareLex_cons_cons, hcompare, horder]
      split <;> rfl
  induction as generalizing bs with
  | nil => exact hnil hb
  | cons x as ih =>
    cases bs with
    | nil =>
      rw [compareSplit, ← zipWithAll_swap fun _ _ => compareSegments_swap _ _,
        @Std.OrientedCmp.eq_swap _ (List.compareLex segmentOrder)]
      exact congrArg Ordering.swap (hnil ha)
    | cons y bs =>
      obtain ⟨hx, has⟩ := List.forall_mem_cons.1 ha
      obtain ⟨hy, hbs⟩ := List.forall_mem_cons.1 hb
      rw [List.cons_append, List.cons_append, List.compareLex_cons_cons,
        ← compareSegments_eq hx hy h.1]
      change (compareSegments x y).then (compareSplit as bs) = _
      cases hfirst : compareSegments x y with
      | lt | gt => rfl
      | eq => exact congrArg _ (ih has hbs (h.2 hfirst))

/-- The first segments that differ are two numbers or two qualifiers, if both versions have one. -/
def Unmixed (a b : String) : Prop :=
  UnmixedSplit (splitVersion a) (splitVersion b)

instance (a b : String) : Decidable (Unmixed a b) :=
  UnmixedSplit.decide _ _

theorem splitVersion_ne_empty {v : String} : ∀ x ∈ splitVersion v, x ≠ "" := by
  intro x h
  simp only [splitVersion, List.mem_map, List.mem_filter] at h
  obtain ⟨l, ⟨-, hl⟩, rfl⟩ := h
  simpa using hl

variable {vs : List String}

theorem compareVersions_trans (h : ∀ a ∈ vs, ∀ b ∈ vs, Unmixed a b) :
    ∀ a ∈ vs, ∀ b ∈ vs, ∀ c ∈ vs, (compareVersions a b).isLE → (compareVersions b c).isLE →
      (compareVersions a c).isLE := by
  intro a ha b hb c hc hab hbc
  have heq {a b : String} (h : Unmixed a b) : compareVersions a b =
      List.compareLex segmentOrder (splitVersion a ++ [""]) (splitVersion b ++ [""]) :=
    compareSplit_eq splitVersion_ne_empty splitVersion_ne_empty h
  rw [heq (h a ha b hb)] at hab
  rw [heq (h b hb c hc)] at hbc
  rw [heq (h a ha c hc)]
  exact Std.TransCmp.isLE_trans hab hbc

theorem weakOrder_of_trans (htrans : ∀ a ∈ vs, ∀ b ∈ vs, ∀ c ∈ vs,
    (compareVersions a b).isLE → (compareVersions b c).isLE → (compareVersions a c).isLE) :
    WeakOrderOn byVersion vs where
  asymm a _ b _ := byVersion_asymm a b
  trans a ha b hb c hc hab hbc := by
    have hle {a b : String} : byVersion a b = false ↔ (compareVersions b a).isLE := by
      rw [← compareVersions_swap a b, byVersion]
      cases compareVersions a b <;> decide
    exact hle.mpr (htrans c hc b hb a ha (hle.mp hbc) (hle.mp hab))

/-! ## The first segments that differ -/

def number (x : String) : Nat :=
  Nat.ofDigitChars 10 x.toList 0

theorem atoi_number {x : String} (h : (atoi x).isSome) (hfit : number x < 2 ^ 63) :
    atoi x = some (number x : Int) := by
  unfold atoi at h ⊢
  split at h
  · cases h
  · rename_i hx
    rw [if_neg hx]
    simp only [Bool.or_eq_true, List.any_eq_true, not_or, not_exists, not_and] at hx
    exact congrArg some (Text.foldl_wrapped (n := 0) (fun c hc => by simpa using hx.2 c hc) hfit)

theorem compareSegments_self (x : String) : compareSegments x x = .eq := by
  have := compareSegments_swap x x
  cases h : compareSegments x x <;> simp_all

theorem compareSplit_append (common as bs : List String) :
    compareSplit (common ++ as) (common ++ bs) = compareSplit as bs :=
  zipWithAll_append (fun x => compareSegments_self x) common as bs

theorem compareVersions_longer {a b x : String} {rest : List String}
    (h : splitVersion b = splitVersion a ++ x :: rest) :
    compareVersions a b = if (atoi x).isSome then .lt else .gt := by
  have hx := splitVersion_ne_empty (v := b) x (by simp [h])
  show compareSplit (splitVersion a) (splitVersion b) = _
  rw [h, ← List.append_nil (splitVersion a), List.append_assoc, compareSplit_append]
  simp only [compareSplit, List.zipWithAll, List.nil_append, List.map_cons, List.foldr_cons,
    Option.getD, (compareSegments_missing hx).1]
  split <;> rfl

/-! ## What the order determines -/

/-- The document `Reindex` writes for an artifact; `list` is the set of its versions as the map
enumerates it. -/
def reindexed (sorter : Sorter byVersion) (groupID artifactID lastUpdated : String)
    (list : List String) : MavenMetadata where
  groupID := groupID
  artifactID := artifactID
  latest := (sorter.sort list).getLast?.getD ""
  release := latestRelease (sorter.sort list)
  versions := sorter.sort list
  lastUpdated := lastUpdated

/-- The comparison orders the versions of a list, and what is written about them depends on
nothing but the versions, up to ties. -/
structure OrdersVersions (vs : List String) : Prop where
  swap : ∀ a b, (compareVersions a b).swap = compareVersions b a
  trans : ∀ a ∈ vs, ∀ b ∈ vs, ∀ c ∈ vs, (compareVersions a b).isLE →
    (compareVersions b c).isLE → (compareVersions a c).isLE
  numbers : ∀ a ∈ vs, ∀ b ∈ vs, ∀ common x y as bs, splitVersion a = common ++ x :: as →
    splitVersion b = common ++ y :: bs → (atoi x).isSome → (atoi y).isSome →
    number x < number y → compareVersions a b = .lt
  qualified : ∀ a b x rest, splitVersion b = splitVersion a ++ x :: rest → atoi x = none →
    compareVersions b a = .lt
  longer : ∀ a b x rest, splitVersion b = splitVersion a ++ x :: rest → (atoi x).isSome →
    number x ≠ 0 → compareVersions a b = .lt
  written : ∀ sorter groupID artifactID lastUpdated l₁ l₂, l₁.Perm vs → l₂.Perm vs →
    SameButTies (reindexed sorter groupID artifactID lastUpdated l₁)
      (reindexed sorter groupID artifactID lastUpdated l₂)
  selected : ∀ sorter docs₁ docs₂, (releases docs₁).Perm vs → (releases docs₂).Perm vs →
    Tied byVersion (gathered sorter docs₁).release (gathered sorter docs₂).release

end FondacoFormal.Formats.Maven
