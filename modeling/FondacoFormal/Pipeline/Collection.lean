import FondacoFormal.Pipeline.Sweep
import FondacoFormal.Repl.Acceptance

/-!
# What a sweep may delete

A reference that has been in force since the sweep began is marked before the first blob is
looked at.
-/

namespace FondacoFormal.Pipeline

open Library Library.Runs State Repl

/-! ## What leaves the store alone -/

/-- `ParkEvent` leaves the store alone. -/
theorem park_blobs (a : Applier) (e : JournalEntry) (reason : Option String) (s : SiteState) :
    (park a e reason s).state.blobs = s.blobs := by
  unfold park
  cases hpark : parkEvent a.pg e reason s with
  | error cause => rfl
  | ok next =>
    obtain ⟨parked, rfl⟩ := parkEvent_ok hpark
    rfl

variable {req : PublishRequest} {s t : SiteState} {created : Bool}

theorem insertHostedTx_blobs {site : String} {nowMs : Int} {h : HLC}
    (ran : insertHostedTx site req nowMs s = .ok (t, h, created)) : t.blobs = s.blobs := by
  unfold insertHostedTx at ran
  split at ran
  · cases ran
  · dsimp only at ran
    repeat' split at ran
    all_goals cases ran
    all_goals rfl

theorem insert_blobs {p : Publisher} {clock : TxClock} {h : HLC}
    (ran : p.insert req clock s = .ok (t, h, created)) : t.blobs = s.blobs := by
  unfold Publisher.insert at ran
  split at ran
  · obtain ⟨done, hdone, heq⟩ := Fallible.map_eq_ok.mp ran
    cases heq
    unfold insertWithJournal at hdone
    split at hdone
    · cases hdone
    · rename_i hinsert
      cases hdone
      exact insertHostedTx_blobs hinsert
    · rename_i inserted stamp hinsert
      split at hdone
      · cases hdone
      · rename_i happend
        cases hdone
        obtain ⟨⟨middle, entry⟩, hfirst, hrest⟩ := Fallible.bind_eq_ok.mp happend
        obtain ⟨⟨last, bytes⟩, hsecond, hdone⟩ := Fallible.bind_eq_ok.mp hrest
        cases hdone
        obtain ⟨_, _, _, -, -, -, -, rfl⟩ := appendJournal_ok hfirst
        obtain ⟨_, _, _, -, -, -, -, rfl⟩ := appendJournal_ok hsecond
        exact insertHostedTx_blobs (t := inserted) hinsert
  · exact insertHostedTx_blobs ran

/-! ## The invariant -/

def SweepPhase.Covers : SweepPhase → Reference → Prop
  | idle, _ => True
  | rowsRead marked, .row _ digest => digest ∈ marked
  | rowsRead _, _ => True
  | conflictsRead _, .manifest .. => True
  | conflictsRead marked, r => r.sha256 ∈ marked
  | reading keys marked, .manifest key digest => key ∈ keys ∨ digest ∈ marked
  | reading _ marked, r => r.sha256 ∈ marked
  | sweeping _ _ marked, r => r.sha256 ∈ marked

/-- Every reference whose blob was found when it was checked for still has its blob. -/
def Kept (w : Collecting) : Prop :=
  ∀ r ∈ w.references, r ∈ w.vouched → r.sha256 ∈ w.site.blobs
  deriving Decidable

structure Safe (w : Collecting) : Prop where
  vouched : ∀ r ∈ w.vouched, r ∈ w.references ∧ r.sha256 ∈ w.site.blobs
  held : ∀ work ∈ w.works, ∀ digest ∈ work.held, digest ∈ w.site.blobs
  steady : ∀ r ∈ w.steady, r ∈ w.references
  covered : ∀ r ∈ w.steady, w.sweep.Covers r

section References

variable {w : Collecting} {key : PathKey} {digest : String}

theorem row_mem_references :
    .row key digest ∈ w.references ↔ .row key digest ∈ rowReferences w.site := by
  simp [Collecting.references, sideReferences, manifestReferences]

theorem side_mem_references :
    .side key digest ∈ w.references ↔ .side key digest ∈ sideReferences w.site := by
  simp [Collecting.references, rowReferences, manifestReferences]

theorem manifest_mem_references :
    .manifest key digest ∈ w.references ↔ w.manifests.find key = some digest ∧ digest ≠ "" := by
  simp [Collecting.references, rowReferences, sideReferences, manifestReferences,
    Table.mem_rows_iff]

end References

theorem start_safe (site : SiteState) (modified : String → Int) (manifests : Table PathKey String)
    (processes : Nat) : Safe (.start site modified manifests processes) where
  vouched := by
    intro r hmem
    obtain ⟨hnamed, hpresent⟩ := List.mem_filter.mp hmem
    exact ⟨hnamed, of_decide_eq_true hpresent⟩
  held := by
    intro work hmem
    rw [List.eq_of_mem_replicate hmem]
    exact List.forall_mem_nil _
  steady := List.forall_mem_nil _
  covered := List.forall_mem_nil _

variable {found : List String} {site : SiteState}

namespace Safe

variable {w : Collecting}

variable (safe : Safe w)

include safe

theorem kept : Kept w :=
  fun r _ hvouched => (safe.vouched r hvouched).2

theorem moved (i : Nat) {next : Work} (hnext : ∀ digest ∈ next.held, digest ∈ w.site.blobs) :
    Safe (w.moved i next) where
  vouched := safe.vouched
  held := by
    intro work hmem
    rcases List.mem_or_eq_of_mem_set hmem with hold | rfl
    · exact safe.held work hold
    · exact hnext
  steady := safe.steady
  covered := safe.covered

theorem moved_idle (i : Nat) : Safe (w.moved i .idle) :=
  safe.moved i (List.forall_mem_nil _)

theorem aged (modified : String → Int) : Safe { w with modified := modified } :=
  ⟨safe.vouched, safe.held, safe.steady, safe.covered⟩

theorem putBlob (digest : String) (now : Int) : Safe (w.putBlob digest now) where
  vouched := fun r hmem => (safe.vouched r hmem).imp_right Finset.mem_insert_of_mem
  held := fun work hmem other hheld => Finset.mem_insert_of_mem (safe.held work hmem other hheld)
  steady := safe.steady
  covered := safe.covered

theorem changed (manifests : Table PathKey String) (hblobs : w.site.blobs ⊆ site.blobs)
    (hfound : ∀ digest ∈ found, digest ∈ site.blobs) :
    Safe (w.changed site manifests found) where
  vouched := by
    intro r hmem
    obtain ⟨hnamed, hreason⟩ := List.mem_filter.mp hmem
    refine ⟨hnamed, ?_⟩
    rcases of_decide_eq_true hreason with hmem | hmem
    · exact hfound _ hmem
    · obtain ⟨old, hold, hsame⟩ := List.mem_map.mp hmem
      rw [← hsame]
      exact hblobs (safe.vouched old hold).2
  held := fun work hmem digest hheld => hblobs (safe.held work hmem digest hheld)
  steady := fun r hmem => of_decide_eq_true (List.mem_filter.mp hmem).2
  covered := fun r hmem => safe.covered r (List.mem_filter.mp hmem).1

theorem committed (i : Nat) (writes : List ProjectionWrite) (replicated : Bool)
    (hblobs : w.site.blobs ⊆ site.blobs) (hfound : ∀ digest ∈ found, digest ∈ site.blobs) :
    Safe (w.committed i site writes replicated found) := by
  have after := safe.changed w.manifests hblobs hfound
  refine after.moved i ?_
  intro digest hheld
  obtain ⟨item, hitem, rfl⟩ := List.mem_map.mp hheld
  obtain ⟨hqueued, hvouched⟩ := List.mem_filter.mp hitem
  obtain ⟨write, -, rfl⟩ := List.mem_map.mp hqueued
  obtain ⟨r, hmem, hsame⟩ := List.mem_map.mp (of_decide_eq_true hvouched)
  change write.sha256 ∈ site.blobs
  rw [← hsame]
  exact (after.vouched r hmem).2

/-! ## Operations -/

theorem publish (i : Nat) (req : PublishRequest) : Safe (w.publish i req) := by
  unfold Collecting.publish
  split
  · exact safe.moved_idle i
  · rename_i hpassed
    refine safe.moved i (List.forall_mem_singleton.mpr ?_)
    unfold precheck at hpassed
    split_ifs at hpassed with hbad hpath hmissing
    simpa [hasBlob] using hmissing

theorem parked (a : Applier) (e : JournalEntry) (reason : Option String) :
    Safe (w.changed (park a e reason w.site).state w.manifests []) :=
  safe.changed w.manifests (park_blobs a e reason w.site).symm.subset (List.forall_mem_nil _)

theorem applies (i : Nat) (a : Applier) (peer : String) (e : JournalEntry) (retried : Bool)
    (now : Int) : Safe (w.applies i a peer e retried now) := by
  unfold Collecting.applies
  split
  · exact safe.parked a e _
  · split
    · rename_i fetched hprefetch
      obtain ⟨blobs, hblobs, rfl⟩ := prefetchBlob_ok hprefetch
      have after : Safe (w.changed { w.site with blobs := blobs } w.manifests []) :=
        safe.changed w.manifests hblobs.subset (List.forall_mem_nil _)
      refine (after.aged _).moved i ?_
      exact List.forall_mem_nil _
    · split
      · exact safe
      · exact safe.parked a e _
    · exact safe

theorem appliesFetched (i : Nat) (a : Applier) (peer : String) (e : JournalEntry) (retried : Bool)
    (seen : Finset String) (now : Int)
    (hheld : ∀ digest ∈ (Work.rechecked a peer e retried seen).held, digest ∈ w.site.blobs) :
    Safe (w.appliesFetched i a peer e retried seen now) := by
  exact (safe.aged _).committed i _ true Finset.subset_union_left fun digest hmem =>
    Finset.mem_union_left _ (hheld digest hmem)

theorem next (p : Publisher) (i : Nat) (now : Int) (clock : TxClock) :
    Safe (w.next p i now clock) := by
  have held : ∀ work, w.works[i]? = some work → ∀ digest ∈ work.held, digest ∈ w.site.blobs :=
    fun work hwork => safe.held work (List.mem_of_getElem? hwork)
  unfold Collecting.next
  split
  · exact safe
  · exact safe
  · exact safe.publish i _
  · rename_i req hwork
    split
    · exact safe.moved_idle i
    · rename_i site h created hran
      have hblobs : site.blobs = w.site.blobs := insert_blobs hran
      refine safe.committed i _ false hblobs.symm.subset ?_
      rw [hblobs]
      exact held _ hwork
  · refine (safe.putBlob _ now).moved i (List.forall_mem_singleton.mpr ?_)
    exact Finset.mem_insert_self _ _
  · rename_i hwork
    exact (safe.changed _ subset_rfl (held _ hwork)).moved_idle i
  · refine safe.moved i ?_
    intro digest hheld
    exact of_decide_eq_true (List.mem_filter.mp hheld).2
  · rename_i hwork
    exact safe.appliesFetched i _ _ _ _ _ now (held _ hwork)
  · exact safe.moved_idle i
  · rename_i item rest hwork
    have hrest : ∀ digest ∈ (Work.projecting rest).held, digest ∈ w.site.blobs := by
      intro digest hmem
      refine held _ hwork digest ?_
      obtain ⟨other, hother, rfl⟩ := List.mem_map.mp hmem
      obtain ⟨hqueued, hvouched⟩ := List.mem_filter.mp hother
      exact List.mem_map_of_mem (List.mem_filter.mpr ⟨List.mem_cons_of_mem item hqueued, hvouched⟩)
    split
    · exact safe.moved i hrest
    · refine (safe.changed _ subset_rfl ?_).moved i hrest
      split
      · rename_i hvouched
        exact List.forall_mem_singleton.mpr (held _ hwork _
          (List.mem_map_of_mem (List.mem_filter.mpr ⟨List.mem_cons_self, hvouched⟩)))
      · exact List.forall_mem_nil _

/-! ## The sweep -/

theorem marks {phase : SweepPhase} (hcovers : ∀ r ∈ w.steady, phase.Covers r) :
    Safe { w with sweep := phase } :=
  ⟨safe.vouched, safe.held, safe.steady, hcovers⟩

theorem deletes {digest : String} (hnamed : ∀ r ∈ w.references, r.sha256 ≠ digest)
    (hheld : ∀ work ∈ w.works, digest ∉ work.held) :
    Safe { w with site := { w.site with blobs := w.site.blobs.erase digest } } where
  vouched := by
    intro r hmem
    obtain ⟨href, hpresent⟩ := safe.vouched r hmem
    exact ⟨href, Finset.mem_erase.mpr ⟨hnamed r href, hpresent⟩⟩
  held := by
    intro work hmem other hother
    refine Finset.mem_erase.mpr ⟨?_, safe.held work hmem other hother⟩
    rintro rfl
    exact hheld work hmem hother
  steady := safe.steady
  covered := safe.covered

end Safe

/-- A blob some reference in force names, or some operation under way has found. -/
def Collecting.needs (w : Collecting) (digest : String) : Prop :=
  (∃ r ∈ w.references, r.sha256 = digest) ∨ ∃ work ∈ w.works, digest ∈ work.held
  deriving Decidable

/--
The sweep has the database, and an old blob that it comes to while the blob is
needed has been named by one reference ever since the sweep began.
-/
def SweepPhase.Undisturbed (flags : GcFlags) (w : Collecting) : SweepPhase → Prop
  | idle => flags.database = true
  | sweeping cutoff ((digest, modTime) :: _) _ =>
    modTime ≤ cutoff → w.needs digest → ∃ r ∈ w.steady, r.sha256 = digest
  | _ => True

instance (flags : GcFlags) (w : Collecting) :
    (phase : SweepPhase) → Decidable (phase.Undisturbed flags w)
  | .idle => inferInstanceAs (Decidable (_ = true))
  | .sweeping _ (_ :: _) _ => inferInstanceAs (Decidable (_ ≤ _ → _ → ∃ r ∈ w.steady, _))
  | .sweeping _ [] _ | .rowsRead _ | .conflictsRead _ | .reading .. =>
    inferInstanceAs (Decidable True)

def Undisturbed (flags : GcFlags) (w : Collecting) : CollectOp → Prop
  | .sweep _ => w.sweep.Undisturbed flags w
  | _ => True

instance (flags : GcFlags) (w : Collecting) : (op : CollectOp) → Decidable (Undisturbed flags w op)
  | .sweep _ => inferInstanceAs (Decidable (w.sweep.Undisturbed flags w))
  | .put .. | .mount .. | .publish .. | .ingest .. | .apply .. | .next .. | .fail _ | .walk _
  | .scan _ | .finish => inferInstanceAs (Decidable True)

namespace Safe

variable {w : Collecting} {flags : GcFlags}

variable (safe : Safe w)

include safe

theorem sweepNext {now : Int} (undisturbed : Undisturbed flags w (.sweep now)) :
    Safe (w.sweepNext flags now) := by
  have covered := safe.covered
  change w.sweep.Undisturbed flags w at undisturbed
  unfold Collecting.sweepNext
  cases hsweep : w.sweep with
  | idle =>
    rw [hsweep] at undisturbed
    have hdatabase : flags.database = true := undisturbed
    dsimp only
    rw [if_pos hdatabase]
    refine ⟨safe.vouched, safe.held, fun r hmem => hmem, ?_⟩
    rintro (⟨key, digest⟩ | ⟨key, digest⟩ | ⟨key, digest⟩) hmem
    · exact List.mem_map_of_mem (row_mem_references.mp hmem)
    · trivial
    · trivial
  | rowsRead marked =>
    rw [hsweep] at covered
    refine safe.marks ?_
    rintro (⟨key, digest⟩ | ⟨key, digest⟩ | ⟨key, digest⟩) hmem
    · exact List.mem_append_right _ (covered _ hmem)
    · have hside := side_mem_references.mp (safe.steady _ hmem)
      exact List.mem_append_left _ (List.mem_map_of_mem hside)
    · trivial
  | conflictsRead marked =>
    rw [hsweep] at covered
    refine safe.marks ?_
    rintro (⟨key, digest⟩ | ⟨key, digest⟩ | ⟨key, digest⟩) hmem
    · exact covered _ hmem
    · exact covered _ hmem
    · obtain ⟨hfind, -⟩ := manifest_mem_references.mp (safe.steady _ hmem)
      exact .inl (List.mem_map_of_mem ((Table.mem_rows_iff _ _ _).mpr hfind))
  | reading keys marked =>
    rw [hsweep] at covered
    cases keys with
    | nil =>
      refine safe.marks ?_
      rintro (⟨key, digest⟩ | ⟨key, digest⟩ | ⟨key, digest⟩) hmem
      · exact covered _ hmem
      · exact covered _ hmem
      · exact (covered _ hmem).resolve_left List.not_mem_nil
    | cons first rest =>
      dsimp only
      have hmarks : ∀ digest ∈ marked, digest ∈
          if (w.manifests.find first).getD "" ≠ "" then
            (w.manifests.find first).getD "" :: marked else marked := by
        intro digest hmem
        split
        · exact List.mem_cons_of_mem _ hmem
        · exact hmem
      refine safe.marks ?_
      rintro (⟨key, digest⟩ | ⟨key, digest⟩ | ⟨key, digest⟩) hmem
      · exact hmarks _ (covered _ hmem)
      · exact hmarks _ (covered _ hmem)
      · rcases covered _ hmem with hlisted | hmarked
        · rcases List.mem_cons.mp hlisted with rfl | hrest
          · -- A manifest that was not rewritten since the sweep began is read as it was.
            obtain ⟨hfind, hdigest⟩ := manifest_mem_references.mp (safe.steady _ hmem)
            right
            rw [hfind, Option.getD_some, if_pos hdigest]
            exact List.mem_cons_self
          · exact .inl hrest
        · exact .inr (hmarks _ hmarked)
  | sweeping cutoff listed marked =>
    rw [hsweep] at covered undisturbed
    cases listed with
    | nil => exact safe
    | cons first rest =>
      obtain ⟨digest, modTime⟩ := first
      dsimp only
      have after : Safe { w with sweep := .sweeping cutoff rest marked } := safe.marks covered
      split
      · exact after
      · rename_i hdeletes
        simp only [Bool.or_eq_true, decide_eq_true_eq, not_or, not_lt] at hdeletes
        have hunneeded : ¬ w.needs digest := by
          intro hneeds
          obtain ⟨r, hsteady, rfl⟩ := undisturbed hdeletes.1.2 hneeds
          exact hdeletes.1.1 (covered r hsteady)
        refine after.deletes ?_ ?_
        · exact fun r hmem hsame => hunneeded (.inl ⟨r, hmem, hsame⟩)
        · exact fun work hmem hheld => hunneeded (.inr ⟨work, hmem, hheld⟩)

theorem walked (key : PathKey) : Safe (w.walked key) := by
  have covered := safe.covered
  unfold Collecting.walked
  split
  · rename_i keys marked hsweep
    rw [hsweep] at covered
    refine safe.marks ?_
    rintro (⟨other, digest⟩ | ⟨other, digest⟩ | ⟨other, digest⟩) hmem
    · exact covered _ hmem
    · exact covered _ hmem
    · exact (covered _ hmem).imp_left fun hlisted => List.mem_append_left _ hlisted
  · exact safe

theorem scanned (digest : String) : Safe (w.scanned digest) := by
  have covered := safe.covered
  unfold Collecting.scanned
  split
  · rename_i cutoff listed marked hsweep
    rw [hsweep] at covered
    split
    · exact safe.marks covered
    · exact safe
  · exact safe

theorem act (p : Publisher) (op : CollectOp) (undisturbed : Undisturbed flags w op) :
    Safe (op.act p flags w) := by
  cases op with
  | put digest now => exact safe.putBlob digest now
  | mount i req =>
    refine safe.moved i ?_
    split <;> exact List.forall_mem_nil _
  | publish i req => exact safe.publish i req
  | ingest i key digest =>
    refine safe.moved i ?_
    split
    · rename_i hfound
      exact List.forall_mem_singleton.mpr (of_decide_eq_true hfound)
    · exact List.forall_mem_nil _
  | apply i a peer e retried now => exact safe.applies i a peer e retried now
  | next i now clock => exact safe.next p i now clock
  | fail i => exact safe.moved_idle i
  | sweep now => exact safe.sweepNext undisturbed
  | walk key => exact safe.walked key
  | scan digest => exact safe.scanned digest
  | finish => exact safe.marks fun _ _ => trivial

theorem step (p : Publisher) (op : CollectOp) (undisturbed : Undisturbed flags w op) :
    Safe (op.run p flags w) := by
  unfold CollectOp.run
  split
  · exact safe.act p op undisturbed
  · split
    · exact safe.act p op undisturbed
    · exact safe

end Safe

/-! ## Every run -/

/--
In every interleaving of a sweep with writers, from any stored content of any
age: when each old blob that the sweep comes to while it is needed was named ever
since the sweep began, every reference keeps the blob its operation had found.
-/
theorem referenced_blobs_kept (p : Publisher) (flags : GcFlags) (site : SiteState)
    (modified : String → Int) (manifests : Table PathKey String) (processes : Nat)
    (ops : List CollectOp)
    (undisturbed : Meets (CollectOp.run p flags) (Undisturbed flags) ops
      (.start site modified manifests processes)) :
    Kept (runAll (CollectOp.run p flags) ops (.start site modified manifests processes)) := by
  have hstep : ∀ w op, Safe w → Undisturbed flags w op → Safe (CollectOp.run p flags op w) :=
    fun w op safe hop => safe.step p op hop
  exact (invariant_runAll hstep (start_safe site modified manifests processes) undisturbed).kept

def sampleStore : SiteState :=
  { blobs := {"aa", "zz"} }

def youngSteps : List CollectOp :=
  [.put "aa" 95, .sweep 100, .publish 0 (samplePublish "aa"), .next 0 101 ⟨10, 11, 12, 10⟩,
    .sweep 102, .sweep 103, .sweep 104, .scan "aa", .scan "zz", .sweep 105, .sweep 106,
    .next 0 107 ⟨20, 21, 22, 20⟩, .next 0 108 ⟨30, 31, 32, 30⟩, .finish]

theorem referenced_blobs_kept_young :
    Kept (runAll (CollectOp.run ⟨"east", .plain, true⟩ ⟨true, true, 10⟩) youngSteps
        (.start sampleStore (fun _ => 0) ∅ 1)) ∧
      (runAll (CollectOp.run ⟨"east", .plain, true⟩ ⟨true, true, 10⟩) youngSteps
        (.start sampleStore (fun _ => 0) ∅ 1)).site.blobs = {"aa"} :=
  ⟨referenced_blobs_kept ⟨"east", .plain, true⟩ ⟨true, true, 10⟩ sampleStore (fun _ => 0) ∅ 1
    youngSteps (by decide +kernel), by decide +kernel⟩

def mountedSteps : List CollectOp :=
  [.sweep 100, .sweep 101, .sweep 102, .sweep 103, .scan "aa", .mount 0 (samplePublish "aa"),
    .next 0 104 ⟨10, 11, 12, 10⟩, .next 0 105 ⟨20, 21, 22, 20⟩, .next 0 106 ⟨30, 31, 32, 30⟩,
    .next 0 107 ⟨40, 41, 42, 40⟩, .sweep 108, .finish]

theorem mounted_blob_collected :
    (runAll (CollectOp.run ⟨"east", .plain, true⟩ ⟨true, true, 10⟩) mountedSteps
        (.start sampleStore (fun _ => 0) ∅ 1)).works.all Work.isIdle = true ∧
      ¬ Kept (runAll (CollectOp.run ⟨"east", .plain, true⟩ ⟨true, true, 10⟩) mountedSteps
        (.start sampleStore (fun _ => 0) ∅ 1)) :=
  ⟨by decide +kernel, by decide +kernel⟩

end FondacoFormal.Pipeline
