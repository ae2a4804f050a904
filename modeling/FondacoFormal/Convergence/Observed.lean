import FondacoFormal.Library.Register
import FondacoFormal.Safety.ConflictBlock
import Mathlib.Data.Set.Subsingleton

/-!
# What a site has observed

A site's tables as a function of the set of things it was told.
-/

namespace FondacoFormal.Convergence

open Library.Register State Repl

/-! ## Observations -/

inductive Observation where
  | publish (key : PathKey) (hlc : HLC) (sha : String)
  | decision (key : PathKey) (hlc : HLC) (keepSha : String)
  | verdict (key : QuarantineKey) (hlc : HLC) (active : Bool)
  | revocation (hash : String)

def pointers (told : Set Observation) (key : PathKey) : Set (HLC ×ₗ Stringᵒᵈ) :=
  {x | .publish key (ofLex x).1 (OrderDual.ofDual (ofLex x).2) ∈ told}

def digests (told : Set Observation) (key : PathKey) : Set String :=
  {sha | ∃ hlc, .publish key hlc sha ∈ told}

def decisions (told : Set Observation) (key : PathKey) : Set (HLC ×ₗ String) :=
  {x | .decision key (ofLex x).1 (ofLex x).2 ∈ told}

def verdicts (told : Set Observation) (key : QuarantineKey) : Set (HLC ×ₗ Bool) :=
  {x | .verdict key (ofLex x).1 (ofLex x).2 ∈ told}

def Contested (flags : PathKey → Bool) (told : Set Observation) (key : PathKey) : Prop :=
  flags key = false ∧ (digests told key).Nontrivial

theorem eq_toLex_iff {α β : Type} {x : α ×ₗ β} {a : α} {b : β} :
    (ofLex x).1 = a ∧ (ofLex x).2 = b ↔ x = toLex (a, b) := by
  rw [← ofLex_inj, Prod.ext_iff, ofLex_toLex]

section Projections

variable {told more : Set Observation} {key other : PathKey} {h : HLC} {sha : String}

@[simp] theorem pointers_insert_publish : pointers (insert (.publish key h sha) told) key =
    insert (toLex (h, OrderDual.toDual sha)) (pointers told key) := by
  ext x
  simp only [pointers, Set.mem_insert_iff, Set.mem_ofPred_eq, Observation.publish.injEq, true_and]
  exact or_congr_left eq_toLex_iff

@[simp] theorem digests_insert_publish :
    digests (insert (.publish key h sha) told) key = insert sha (digests told key) := by
  ext other
  simp only [digests, Set.mem_insert_iff, Set.mem_ofPred_eq, Observation.publish.injEq, true_and]
  constructor
  · rintro ⟨stamp, ⟨-, hsha⟩ | hold⟩
    · exact .inl hsha
    · exact .inr ⟨stamp, hold⟩
  · rintro (rfl | ⟨stamp, hold⟩)
    · exact ⟨h, .inl ⟨rfl, rfl⟩⟩
    · exact ⟨stamp, .inr hold⟩

@[simp] theorem decisions_insert_publish :
    decisions (insert (.publish other h sha) told) key = decisions told key := by
  ext x
  simp [decisions]

@[simp] theorem digests_insert_decision :
    digests (insert (.decision other h sha) told) key = digests told key := by
  ext x
  simp [digests]

@[simp] theorem pointers_insert_decision :
    pointers (insert (.decision other h sha) told) key = pointers told key := by
  ext x
  simp [pointers]

@[simp] theorem decisions_insert_decision : decisions (insert (.decision key h sha) told) key =
    insert (toLex (h, sha)) (decisions told key) := by
  ext x
  simp only [decisions, Set.mem_insert_iff, Set.mem_ofPred_eq, Observation.decision.injEq,
    true_and]
  exact or_congr_left eq_toLex_iff

@[simp] theorem verdicts_insert_verdict {register : QuarantineKey} {active : Bool} :
    verdicts (insert (.verdict register h active) told) register =
      insert (toLex (h, active)) (verdicts told register) := by
  ext x
  simp only [verdicts, Set.mem_insert_iff, Set.mem_ofPred_eq, Observation.verdict.injEq, true_and]
  exact or_congr_left eq_toLex_iff

theorem contested_mono {flags : PathKey → Bool} (hsub : told ⊆ more)
    (contested : Contested flags told key) :
    Contested flags more key := by
  refine ⟨contested.1, contested.2.mono ?_⟩
  rintro sha ⟨h, hpublished⟩
  exact ⟨h, hsub hpublished⟩

end Projections

/-! ## One path -/

def pointerOf (row : HostedRow) : HLC ×ₗ Stringᵒᵈ :=
  toLex (row.metadata.hlc, OrderDual.toDual row.sha256)

def decisionOf (r : Resolution) : HLC ×ₗ String :=
  toLex (r.hlc, r.keepSha)

def verdictOf (row : QuarantineRow) : HLC ×ₗ Bool :=
  toLex (row.hlc, row.active)

def OpenOn (s : SiteState) (feed path : String) : Prop :=
  ∃ c ∈ s.conflicts, c.onPath feed path = true ∧ c.unresolved = true

structure PathRefines (flags : PathKey → Bool) (told : Set Observation) (s : SiteState)
    (key : PathKey) : Prop where
  flag : ∀ row, s.hosted.find key = some row → row.mutable = flags key
  decided : Holds (decisions told key) ((storedResolution s key.1 key.2).map decisionOf)
  backed : ∀ r, storedResolution s key.1 key.2 = some r →
    flags key = false ∧ r.keepSha ∈ digests told key
  kept : ∀ r, storedResolution s key.1 key.2 = some r →
    ∃ row, s.hosted.find key = some row ∧ row.sha256 = r.keepSha
  newest : flags key = true →
    Holds (pointers told key) ((s.hosted.find key).map pointerOf)
  lowest : flags key = false → storedResolution s key.1 key.2 = none →
    Holds (Set.preimage OrderDual.ofDual (digests told key))
      ((s.hosted.find key).map fun row => OrderDual.toDual row.sha256)
  named : ∀ sha, Recorded s key.1 key.2 sha ↔ Contested flags told key ∧ sha ∈ digests told key
  status : ∀ c ∈ s.conflicts, c.onPath key.1 key.2 = true →
    (c.unresolved = true ↔ storedResolution s key.1 key.2 = none)

variable {row : HostedRow} {sha : String}

section Path

variable {flags : PathKey → Bool} {told more : Set Observation} {s t : SiteState} {key : PathKey}
  {c : ConflictRow}

section

variable (refines : PathRefines flags told s key)

include refines

theorem PathRefines.contested (hmem : c ∈ s.conflicts) (hpath : c.onPath key.1 key.2 = true) :
    Contested flags told key := by
  refine ((refines.named c.winnerSha).mp ⟨c, hmem, hpath, ?_⟩).1
  exact ConflictRow.names_iff.mpr (.inl rfl)

theorem PathRefines.congr (hrow : t.hosted.find key = s.hosted.find key)
    (hstored : storedResolution t key.1 key.2 = storedResolution s key.1 key.2)
    (hconflicts : ∀ c, c.onPath key.1 key.2 = true → (c ∈ t.conflicts ↔ c ∈ s.conflicts))
    (hpointers : flags key = true → pointers more key = pointers told key)
    (hdigests : digests more key = digests told key)
    (hdecisions : decisions more key = decisions told key) : PathRefines flags more t key := by
  have hrecorded : ∀ sha, Recorded t key.1 key.2 sha ↔ Recorded s key.1 key.2 sha := by
    intro sha
    refine exists_congr fun c => ?_
    constructor
    · rintro ⟨hmem, hpath, hname⟩
      exact ⟨(hconflicts c hpath).mp hmem, hpath, hname⟩
    · rintro ⟨hmem, hpath, hname⟩
      exact ⟨(hconflicts c hpath).mpr hmem, hpath, hname⟩
  have hcontested : Contested flags more key ↔ Contested flags told key := by
    unfold Contested
    rw [hdigests]
  exact
    { flag := by rw [hrow]; exact refines.flag
      decided := by rw [hstored, hdecisions]; exact refines.decided
      backed := by rw [hstored, hdigests]; exact refines.backed
      kept := by rw [hstored, hrow]; exact refines.kept
      newest := by
        intro hmutable
        rw [hrow, hpointers hmutable]
        exact refines.newest hmutable
      lowest := by rw [hrow, hstored, hdigests]; exact refines.lowest
      named := by
        intro sha
        rw [hrecorded, hcontested, hdigests]
        exact refines.named sha
      status := by
        intro c hmem hpath
        rw [hstored]
        exact refines.status c ((hconflicts c hpath).mp hmem) hpath }

theorem PathRefines.unpublished (habsent : s.hosted.find key = none) :
    storedResolution s key.1 key.2 = none ∧ digests told key = ∅ ∧ pointers told key = ∅ := by
  have hundecided : storedResolution s key.1 key.2 = none := by
    cases hstored : storedResolution s key.1 key.2 with
    | none => rfl
    | some r =>
      obtain ⟨row, hrow, -⟩ := refines.kept r hstored
      rw [habsent] at hrow
      cases hrow
  have hdigests : digests told key = ∅ := by
    cases hmutable : flags key with
    | true =>
      have hempty := refines.newest hmutable
      rw [habsent] at hempty
      refine Set.eq_empty_iff_forall_notMem.mpr ?_
      rintro sha ⟨h, hpublished⟩
      exact Set.eq_empty_iff_forall_notMem.mp hempty (toLex (h, OrderDual.toDual sha)) hpublished
    | false =>
      have hempty := refines.lowest hmutable hundecided
      rw [habsent] at hempty
      refine Set.eq_empty_iff_forall_notMem.mpr ?_
      intro sha hpublished
      exact Set.eq_empty_iff_forall_notMem.mp hempty (OrderDual.toDual sha) hpublished
  refine ⟨hundecided, hdigests, Set.eq_empty_iff_forall_notMem.mpr ?_⟩
  intro x hpublished
  exact Set.eq_empty_iff_forall_notMem.mp hdigests _ ⟨_, hpublished⟩

end

theorem contested_of_mutable (hmutable : flags key = true) : ¬ Contested flags told key := by
  rintro ⟨himmutable, -⟩
  rw [hmutable] at himmutable
  cases himmutable

section

variable (refines : PathRefines flags told s key)

include refines

section

variable {h : HLC} (hundecided : storedResolution s key.1 key.2 = none)
  (hrow : t.hosted.find key = some row) (hflag : row.mutable = flags key)
  (hnewest : flags key = true →
    Holds (insert (toLex (h, OrderDual.toDual sha)) (pointers told key)) (some (pointerOf row)))
  (hlowest : flags key = false → IsLeast (insert sha (digests told key)) row.sha256)
  (hstored : storedResolution t key.1 key.2 = storedResolution s key.1 key.2)

include hundecided hrow hflag hnewest hlowest hstored

/-- A publish on a path without a decision. -/
theorem PathRefines.undecided
    (hnamed : ∀ x, Recorded t key.1 key.2 x ↔
      Contested flags (insert (.publish key h sha) told) key ∧ x ∈ insert sha (digests told key))
    (hopen : ∀ c ∈ t.conflicts, c.onPath key.1 key.2 = true → c.unresolved = true) :
    PathRefines flags (insert (.publish key h sha) told) t key := by
  have hnone := hstored.trans hundecided
  refine
    { flag := ?_
      decided := by rw [hstored, decisions_insert_publish]; exact refines.decided
      backed := fun r hsome => absurd (hnone.symm.trans hsome) nofun
      kept := fun r hsome => absurd (hnone.symm.trans hsome) nofun
      newest := by rw [hrow, pointers_insert_publish]; exact hnewest
      lowest := by rw [hrow, digests_insert_publish]; exact fun himmutable _ => hlowest himmutable
      named := by rw [digests_insert_publish]; exact hnamed
      status := fun c hmem hpath => iff_of_true (hopen c hmem hpath) hnone }
  intro other hother
  rw [hrow] at hother
  cases hother
  exact hflag

theorem PathRefines.uncontested (hold : ¬ Contested flags told key)
    (hcalm : ¬ Contested flags (insert (.publish key h sha) told) key)
    (hconflicts : t.conflicts = s.conflicts) :
    PathRefines flags (insert (.publish key h sha) told) t key := by
  refine refines.undecided hundecided hrow hflag hnewest hlowest hstored ?_ ?_
  · intro x
    refine iff_of_false ?_ fun hboth => hcalm hboth.1
    unfold Recorded
    rw [hconflicts]
    exact fun hnamed => hold ((refines.named x).mp hnamed).1
  · intro c hmem hpath
    rw [hconflicts] at hmem
    exact absurd (refines.contested hmem hpath) hold

end

theorem PathRefines.repoint {h : HLC} (hmutable : flags key = true)
    (hrow : t.hosted.find key = some row) (hflag : row.mutable = flags key)
    (hheld : Holds (insert (toLex (h, OrderDual.toDual sha)) (pointers told key))
      (some (pointerOf row)))
    (hstored : storedResolution t key.1 key.2 = storedResolution s key.1 key.2)
    (hconflicts : t.conflicts = s.conflicts) :
    PathRefines flags (insert (.publish key h sha) told) t key := by
  have hundecided : storedResolution s key.1 key.2 = none := by
    cases hsome : storedResolution s key.1 key.2 with
    | none => rfl
    | some r =>
      have himmutable := (refines.backed r hsome).1
      rw [hmutable] at himmutable
      cases himmutable
  refine refines.uncontested hundecided hrow hflag (fun _ => hheld) ?_ hstored
    (contested_of_mutable hmutable) (contested_of_mutable hmutable) hconflicts
  intro himmutable
  rw [hmutable] at himmutable
  cases himmutable

theorem PathRefines.create (habsent : s.hosted.find key = none)
    (hrow : t.hosted.find key = some row) (hflag : row.mutable = flags key)
    (hstored : storedResolution t key.1 key.2 = storedResolution s key.1 key.2)
    (hconflicts : t.conflicts = s.conflicts) :
    PathRefines flags (insert (.publish key row.metadata.hlc row.sha256) told) t key := by
  obtain ⟨hundecided, hdigests, hpointers⟩ := refines.unpublished habsent
  refine refines.uncontested hundecided hrow hflag (fun _ => ?_) (fun _ => ?_) hstored ?_ ?_
    hconflicts
  · exact Holds.write_new (hpointers : Holds (pointers told key) none) _
  · rw [hdigests, insert_empty_eq]
    exact isLeast_singleton
  · rintro ⟨-, hmany⟩
    rw [hdigests] at hmany
    exact Set.not_nontrivial_empty hmany
  · rintro ⟨-, hmany⟩
    rw [digests_insert_publish, hdigests, insert_empty_eq] at hmany
    exact Set.not_nontrivial_singleton hmany

variable (himmutable : flags key = false)

include himmutable

theorem PathRefines.isLeast (hundecided : storedResolution s key.1 key.2 = none)
    (hrow : s.hosted.find key = some row) : IsLeast (digests told key) row.sha256 := by
  have hheld := refines.lowest himmutable hundecided
  rw [hrow] at hheld
  exact hheld

/-- A conflict filed between a digest of the path and another records the two. -/
theorem PathRefines.recorded_filed {sha kept : String} (hkept : kept ∈ digests told key)
    (hconflicts : t.conflicts = s.conflicts ++ [c]) (hpath : c.onPath key.1 key.2 = true)
    (hnames : ∀ x, c.names x = true ↔ x = kept ∨ x = sha) (x : String) :
    Recorded t key.1 key.2 x ↔ x ∈ insert sha (digests told key) := by
  constructor
  · rintro ⟨other, hmem, honpath, hname⟩
    rw [hconflicts] at hmem
    rcases List.mem_append.mp hmem with hold | hnew
    · exact .inr ((refines.named x).mp ⟨other, hold, honpath, hname⟩).2
    · rw [List.mem_singleton.mp hnew] at hname
      rcases (hnames x).mp hname with rfl | rfl
      · exact .inr hkept
      · exact .inl rfl
  · intro hdigest
    have hnew : ∀ y, c.names y = true → Recorded t key.1 key.2 y := by
      intro y hname
      refine ⟨c, ?_, hpath, hname⟩
      rw [hconflicts]
      exact List.mem_append_right _ (List.mem_singleton_self c)
    rcases hdigest with rfl | hold
    · exact hnew _ ((hnames _).mpr (.inr rfl))
    · by_cases hsame : x = kept
      · exact hnew x ((hnames x).mpr (.inl hsame))
      · -- A further digest of the path was named when it arrived.
        have hmany : Contested flags told key := ⟨himmutable, x, hold, kept, hkept, hsame⟩
        obtain ⟨other, hmem, honpath, hname⟩ := (refines.named x).mpr ⟨hmany, hold⟩
        refine ⟨other, ?_, honpath, hname⟩
        rw [hconflicts]
        exact List.mem_append_left _ hmem

/-- A second digest for an undecided immutable path: both are recorded, the smaller is served. -/
theorem PathRefines.conflict {h : HLC} {existing row : HostedRow}
    (hundecided : storedResolution s key.1 key.2 = none)
    (hexisting : s.hosted.find key = some existing) (hdiffers : existing.sha256 ≠ sha)
    (hrow : t.hosted.find key = some row) (hflag : row.mutable = flags key)
    (hserved : row.sha256 = min sha existing.sha256)
    (hstored : storedResolution t key.1 key.2 = storedResolution s key.1 key.2)
    (hconflicts : t.conflicts = s.conflicts ++ [c]) (hpath : c.onPath key.1 key.2 = true)
    (hnames : ∀ x, c.names x = true ↔ x = existing.sha256 ∨ x = sha) (hopen : c.unresolved = true) :
    PathRefines flags (insert (.publish key h sha) told) t key := by
  have hleast := refines.isLeast himmutable hundecided hexisting
  have hcontested : Contested flags (insert (.publish key h sha) told) key := by
    refine ⟨himmutable, ?_⟩
    rw [digests_insert_publish]
    exact ⟨existing.sha256, .inr hleast.1, sha, .inl rfl, hdiffers⟩
  refine refines.undecided hundecided hrow hflag (fun hmutable => ?_) (fun _ => ?_) hstored
    (fun x => ?_) fun other hmem honpath => ?_
  · rw [himmutable] at hmutable
    cases hmutable
  · rw [hserved]
    exact IsLeast.insert sha hleast
  · rw [and_iff_right hcontested]
    exact refines.recorded_filed himmutable hleast.1 hconflicts hpath hnames x
  · rw [hconflicts] at hmem
    rcases List.mem_append.mp hmem with hold | hnew
    · exact (refines.status other hold honpath).mpr hundecided
    · rw [List.mem_singleton.mp hnew]
      exact hopen

end

theorem PathRefines.of_decision {r : Resolution} (himmutable : flags key = false)
    (hstored : storedResolution t key.1 key.2 = some r)
    (hdecided : Holds (decisions more key) (some (decisionOf r)))
    (hkeep : r.keepSha ∈ digests more key) (hrow : t.hosted.find key = some row)
    (hflag : row.mutable = flags key) (hserved : row.sha256 = r.keepSha)
    (hnamed : ∀ sha, Recorded t key.1 key.2 sha ↔
      Contested flags more key ∧ sha ∈ digests more key) (hclosed : ¬ OpenOn t key.1 key.2) :
    PathRefines flags more t key := by
  refine
    { flag := ?_
      decided := by rw [hstored]; exact hdecided
      backed := ?_
      kept := ?_
      newest := ?_
      lowest := ?_
      named := ?_
      status := ?_ }
  · intro other hother
    rw [hrow] at hother
    cases hother
    exact hflag
  · intro other hother
    rw [hstored] at hother
    cases hother
    exact ⟨himmutable, hkeep⟩
  · intro other hother
    rw [hstored] at hother
    cases hother
    exact ⟨row, hrow, hserved⟩
  · intro hmutable
    rw [himmutable] at hmutable
    cases hmutable
  · intro _ hundecided
    rw [hstored] at hundecided
    cases hundecided
  · exact hnamed
  · intro c hmem hpath
    refine iff_of_false (fun hopen => hclosed ⟨c, hmem, hpath, hopen⟩) ?_
    rw [hstored]
    exact Option.some_ne_none r

end Path

end FondacoFormal.Convergence
