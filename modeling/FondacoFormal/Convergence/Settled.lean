import FondacoFormal.Convergence.Merge

/-!
# What a settled site shows

Once retrying moves nothing, what a site has applied is a matter of what it was sent: the
well-formed publishes, verdicts and revocations, and the decisions for a digest of a contested
path.
-/

namespace FondacoFormal.Convergence

open State Repl Safety

/-! ## Events and their checks -/

def Admissible (e : JournalEntry) : Prop :=
  match e.event with
  | .manifestPut (.ok p) => Complete p
  | .blobAvailable (.ok _) => True
  | .tokenRevoke (.ok p) => p.hash.utf8ByteSize = 64
  | .quarantineSet (.ok p) => Blocking p
  | .quarantineRelease (.ok _) => True
  | .conflictResolve (.ok p) => WellFormed p
  | _ => False

/-- A publish of a feed that is replicated ahead of demand has bytes that can be fetched. -/
def Fetchable (a : Applier) (e : JournalEntry) : Prop :=
  ∀ p, e.event = .manifestPut (.ok p) → a.eager p.feed = true →
    a.fetch p.sha256 p.size e.originSite = .ok ()

/-- What a handler looks at besides the payload: the bytes and the recorded conflicts. -/
theorem mergeable_iff {a : Applier} {e : JournalEntry} {s : SiteState} : Mergeable a e s ↔
    Admissible e ∧ (∀ p, e.event = .manifestPut (.ok p) → Available a p s) ∧
      ∀ p, e.event = .conflictResolve (.ok p) → Recorded s p.feed p.path p.keepSha := by
  unfold Mergeable Admissible
  cases e.event with
  | manifestPut body | conflictResolve body | blobAvailable body | tokenRevoke body
  | quarantineSet body | quarantineRelease body => cases body <;> simp
  | unknown kind => simp

def heard (sent : Set JournalEntry) : Set Observation :=
  {o | ∃ e ∈ sent, Admissible e ∧ observe e = some o}

theorem heard_union (sent more : Set JournalEntry) :
    heard (sent ∪ more) = heard sent ∪ heard more := by
  ext o
  constructor
  · rintro ⟨e, hmem | hmem, hannounced⟩
    · exact .inl ⟨e, hmem, hannounced⟩
    · exact .inr ⟨e, hmem, hannounced⟩
  · rintro (⟨e, hmem, hannounced⟩ | ⟨e, hmem, hannounced⟩)
    · exact ⟨e, .inl hmem, hannounced⟩
    · exact ⟨e, .inr hmem, hannounced⟩

def Observation.Sound : Observation → Prop
  | publish key _ sha => key.1 ≠ "" ∧ key.2 ≠ "" ∧ sha.utf8ByteSize = 64
  | decision key _ sha => key.1 ≠ "" ∧ key.2 ≠ "" ∧ sha.utf8ByteSize = 64
  | verdict key _ active => key.2.2 ≠ "" ∧ (active = true → key.1 ≠ "" ∧ key.2.1 ≠ "")
  | revocation hash => hash.utf8ByteSize = 64

theorem effectiveReason_ne_empty (p : QuarantineRelease) :
    QuarantineRelease.effectiveReason p ≠ "" := by
  unfold QuarantineRelease.effectiveReason
  split
  · exact nofun
  · assumption

variable {o : Observation}

theorem heard_sound {sent : Set JournalEntry} (hheard : o ∈ heard sent) : o.Sound := by
  obtain ⟨e, -, hadmissible, hobserve⟩ := hheard
  unfold Admissible at hadmissible
  unfold observe at hobserve
  split at hobserve <;> rename_i hevent
  · rw [hevent] at hadmissible
    cases hobserve
    exact hadmissible
  · rw [hevent] at hadmissible
    cases hobserve
    exact ⟨hadmissible.1, hadmissible.2.1, hadmissible.2.2.1⟩
  · rw [hevent] at hadmissible
    cases hobserve
    exact ⟨hadmissible.2.2, fun _ => ⟨hadmissible.1, hadmissible.2.1⟩⟩
  · cases hobserve
    exact ⟨effectiveReason_ne_empty _, nofun⟩
  · rw [hevent] at hadmissible
    cases hobserve
    exact hadmissible
  · cases hobserve

/-! ## Settling -/

def Founded (flags : PathKey → Bool) (told : Set Observation) : Observation → Prop
  | .decision key _ keepSha => Contested flags told key ∧ keepSha ∈ digests told key
  | _ => True

/-- What is known at last: what was known at first and what of the news is founded. -/
def settle (flags : PathKey → Bool) (base news : Set Observation) : Set Observation :=
  base ∪ {o | o ∈ news ∧ Founded flags (base ∪ news) o}

section Settle

variable {flags : PathKey → Bool} {told more : Set Observation} {key : PathKey}

theorem digests_congr (hpublish : ∀ h sha, .publish key h sha ∈ more ↔ .publish key h sha ∈ told) :
    digests more key = digests told key := by
  ext sha
  exact exists_congr fun h => hpublish h sha

theorem founded_congr (hdigests : ∀ key, digests more key = digests told key) :
    Founded flags more o ↔ Founded flags told o := by
  cases o with
  | decision key h keepSha =>
    simp only [Founded, Contested, hdigests]
  | publish | verdict | revocation => exact Iff.rfl

theorem Founded.mono (hfounded : Founded flags told o) (hsub : told ⊆ more) :
    Founded flags more o := by
  cases o with
  | decision key h keepSha =>
    obtain ⟨hcontested, hstamp, hpublished⟩ := hfounded
    exact ⟨contested_mono hsub hcontested, hstamp, hsub hpublished⟩
  | publish | verdict | revocation => trivial

end Settle

section Settled

variable {a : Applier} {cat : Catalog} {base : Set Observation} {bytes : Finset String}
  {s : SiteState} {sent applied : Set JournalEntry}

variable (synced : Synced a cat base bytes sent applied s)

include synced

theorem Synced.available (quiet : Quiet a s) (hnamed : ∀ e ∈ sent, e.originSite ≠ "")
    {e : JournalEntry} (hsent : e ∈ sent) (hfetch : Fetchable a e) {p : ManifestPut}
    (body : e.event = .manifestPut (.ok p)) (hcomplete : Complete p) : Available a p s := by
  intro heager
  refine (synced.mem_blobs quiet hnamed).mpr (.inr ⟨e, hsent, ?_⟩)
  have hnonempty : p.sha256 ≠ "" := by
    intro hempty
    have hsize := hcomplete.2.2
    rw [hempty] at hsize
    revert hsize
    decide
  unfold Offers
  rw [body]
  exact ⟨rfl, hnonempty, heager, hfetch p body heager⟩

theorem Synced.settled (quiet : Quiet a s) (hnamed : ∀ e ∈ sent, e.originSite ≠ "")
    (hfetch : ∀ e ∈ sent, Fetchable a e) :
    base ∪ observed applied = settle cat.mutable base (heard sent) := by
  have hsub : observed applied ⊆ heard sent := by
    rintro o ⟨e, happlied, hobserve⟩
    exact ⟨e, synced.sub happlied, (mergeable_iff.mp (synced.mergeable e happlied)).1, hobserve⟩
  have happlied : ∀ e ∈ sent, Admissible e →
      (∀ p, e.event = .conflictResolve (.ok p) → Recorded s p.feed p.path p.keepSha) →
      e ∈ applied := by
    intro e hsent hadmissible hrecorded
    refine (synced.applied_iff quiet hnamed).mpr ⟨hsent, mergeable_iff.mpr
      ⟨hadmissible, ?_, hrecorded⟩⟩
    intro p body
    refine synced.available quiet hnamed hsent (hfetch e hsent) body ?_
    unfold Admissible at hadmissible
    rw [body] at hadmissible
    exact hadmissible
  have hpublish : ∀ key h sha, .publish key h sha ∈ base ∪ observed applied ↔
      .publish key h sha ∈ base ∪ heard sent := by
    intro key h sha
    constructor
    · exact fun hmem => hmem.imp id (hsub ·)
    · rintro (hbase | ⟨e, hsent, hadmissible, hobserve⟩)
      · exact .inl hbase
      · refine .inr ⟨e, happlied e hsent hadmissible ?_, hobserve⟩
        intro p body
        unfold observe at hobserve
        rw [body] at hobserve
        cases hobserve
  have hdigests : ∀ key, digests (base ∪ observed applied) key = digests (base ∪ heard sent) key :=
    fun key => digests_congr (hpublish key)
  have hfounded : ∀ o, Founded cat.mutable (base ∪ observed applied) o ↔
      Founded cat.mutable (base ∪ heard sent) o := fun o => founded_congr hdigests
  have hrecorded : ∀ {e : JournalEntry} {p : ConflictResolve} {o : Observation},
      e.event = .conflictResolve (.ok p) → observe e = some o →
      (Founded cat.mutable (base ∪ heard sent) o ↔ Recorded s p.feed p.path p.keepSha) := by
    intro e p o body hobserve
    unfold observe at hobserve
    rw [body] at hobserve
    cases hobserve
    rw [← hfounded]
    exact ((synced.refines.paths (p.feed, p.path)).named p.keepSha).symm
  ext o
  refine or_congr_right ?_
  constructor
  · rintro ⟨e, hmem, hobserve⟩
    refine ⟨hsub ⟨e, hmem, hobserve⟩, ?_⟩
    have hnames := (mergeable_iff.mp (synced.mergeable e hmem)).2.2
    cases o with
    | decision key h keepSha =>
      obtain ⟨p, body⟩ : ∃ p, e.event = .conflictResolve (.ok p) := by
        unfold observe at hobserve
        split at hobserve <;> cases hobserve
        exact ⟨_, by assumption⟩
      exact (hrecorded body hobserve).mpr (hnames p body)
    | publish | verdict | revocation => trivial
  · rintro ⟨⟨e, hsent, hadmissible, hobserve⟩, hfound⟩
    refine ⟨e, happlied e hsent hadmissible ?_, hobserve⟩
    exact fun p body => (hrecorded body hobserve).mp hfound

end Settled

end FondacoFormal.Convergence
