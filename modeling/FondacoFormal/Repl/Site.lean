import FondacoFormal.Library.Runs
import FondacoFormal.Repl.Transactions

/-!
# One site as a transition system

Everything that writes to a site's tables, one committed unit at a time, and
the calls of the replication loop as runs of these units.
-/

namespace FondacoFormal.Repl

open Library.Runs State

inductive SiteTx where
  | deliver (a : Applier) (peer : String) (e : JournalEntry)
  | retry (a : Applier) (peer : String) (e : JournalEntry)
  | restrict (peer : String) (snap : Snapshot)
  | importManifest (a : Applier) (peer site : String) (p : ManifestPut)
  | finishBootstrap (peer : String) (snap : Snapshot)
  | publish (pg : Postgres) (site : String) (req : PublishRequest) (clock : TxClock)
  | resolve (pg : Postgres) (site feed path coord keepSha operator : String) (clock : TxClock)
  | quarantine (pg : Postgres) (site : String) (replicating : Bool)
      (feed coordinate reason detail : String) (active : Bool) (clock : TxClock)
  | prune (keeps : String × Int → JournalRow → Bool)

namespace SiteTx

/-- The state after the unit; a failed transaction leaves the tables as they were. -/
def run : SiteTx → SiteState → SiteState
  | deliver a peer e, s => (applyOne a peer e s).state
  | retry a peer e, s => (retryOne a peer e s).state
  | restrict peer snap, s => (applySnapshotRestrictions peer snap s).toOption.getD s
  | importManifest a peer site p, s => (Repl.importManifest a peer site p s).state
  | finishBootstrap peer snap, s => adoptWatermark peer snap (advanceClockPastSnapshot snap s)
  | publish pg site req clock, s =>
    ((insertWithJournal pg site req clock s).toOption.map Published.state).getD s
  | resolve pg site feed path coord keepSha operator clock, s =>
    ((resolveConflict pg site feed path coord keepSha operator clock s).toOption.map
      Resolved.state).getD s
  | quarantine pg site replicating feed coordinate reason detail active clock, s =>
    (handleQuarantine pg site replicating feed coordinate reason detail active clock s
      ).toOption.getD s
  | prune keeps, s => { s with journal := s.journal.keep keeps }

end SiteTx

inductive SiteCall where
  | publish (pg : Postgres) (site : String) (req : PublishRequest) (clock : TxClock)
  | applyBatch (a : Applier) (peer : String) (entries : List JournalEntry)
  | retryParked (a : Applier) (peer : String) (budget : Nat)
  | bootstrap (a : Applier) (peer : String) (snap : Snapshot)

def SiteCall.run : SiteCall → SiteState → SiteState
  | publish pg site req clock, s => (SiteTx.publish pg site req clock).run s
  | applyBatch a peer entries, s => (Repl.applyBatch a peer entries s).state
  | retryParked a peer budget, s => (Repl.retryParked a peer budget s).state
  | bootstrap a peer snap, s => (Repl.bootstrap a peer snap s).state

/-! ## Calls are runs -/

theorem andThen_state (first : Outcome) (next : SiteState → Outcome) :
    (first.andThen next).state = first.state ∧ first.fault ≠ none ∨
      (first.andThen next).state = (next first.state).state ∧ first.fault = none := by
  unfold Outcome.andThen
  cases hfault : first.fault with
  | none => exact .inr ⟨rfl, rfl⟩
  | some fault => exact .inl ⟨rfl, by simp⟩

theorem Outcome.andThen_completed {first : Outcome} {next : SiteState → Outcome}
    (hdone : (first.andThen next).fault = none) :
    first.fault = none ∧ (next first.state).fault = none ∧
      (first.andThen next).state = (next first.state).state := by
  unfold Outcome.andThen at hdone ⊢
  cases hfault : first.fault with
  | none =>
    rw [hfault] at hdone
    exact ⟨rfl, hdone, rfl⟩
  | some fault =>
    simp only [hfault] at hdone
    cases hdone

/-- `ApplyBatch` delivers a first part of the batch, skipping the site's own entries. -/
theorem applyBatch_runs (a : Applier) (peer : String) (entries : List JournalEntry)
    (s : SiteState) : ∃ delivered : List JournalEntry, delivered.Sublist entries ∧
      (applyBatch a peer entries s).state =
        runAll SiteTx.run (delivered.map (SiteTx.deliver a peer)) s := by
  induction entries generalizing s with
  | nil => exact ⟨[], .slnil, rfl⟩
  | cons e rest ih =>
    unfold applyBatch
    split
    · obtain ⟨delivered, hsub, hstate⟩ := ih s
      exact ⟨delivered, hsub.cons e, hstate⟩
    · split
      · rcases andThen_state (applyOne a peer e s) (applyBatch a peer rest) with
          ⟨hstate, -⟩ | ⟨hstate, -⟩
        · exact ⟨[e], (List.nil_sublist rest).cons_cons e, hstate⟩
        · obtain ⟨delivered, hsub, hrest⟩ := ih (applyOne a peer e s).state
          exact ⟨e :: delivered, hsub.cons_cons e, hstate.trans hrest⟩
      · exact ⟨[], List.nil_sublist _, rfl⟩

theorem retryAll_runs (a : Applier) (peer : String) (entries : List JournalEntry)
    (s : SiteState) : ∃ attempted : List JournalEntry, attempted <+: entries ∧
      (retryAll a peer entries s).state =
        runAll SiteTx.run (attempted.map (SiteTx.retry a peer)) s := by
  induction entries generalizing s with
  | nil => exact ⟨[], List.prefix_refl _, rfl⟩
  | cons e rest ih =>
    unfold retryAll
    rcases andThen_state (retryOne a peer e s) (retryAll a peer rest) with
      ⟨hstate, -⟩ | ⟨hstate, -⟩
    · exact ⟨[e], (List.prefix_cons_inj e).mpr List.nil_prefix, hstate⟩
    · obtain ⟨attempted, hstart, hrest⟩ := ih (retryOne a peer e s).state
      exact ⟨e :: attempted, (List.prefix_cons_inj e).mpr hstart, hstate.trans hrest⟩

/-! ## A small site -/

def lazyApplier (site : String) (now : Int) : Applier where
  site := site
  maxSkew := 300000000000
  maxSkew_pos := by decide
  now := now
  startedAt := 0
  eager := fun _ => false
  fetch := fun _ _ _ => .ok ()
  pg := .plain

def digestOf (c : Char) : String :=
  String.ofList (List.replicate 64 c)

def flaggedPut (origin : String) (c : Char) (wall : Int) (mutable : Bool) : JournalEntry :=
  ⟨origin, 1, .manifestPut (.ok
    { feed := "npm", path := "pkg/1.tgz", coord := "pkg@1", sha256 := digestOf c, size := 10,
      mutable := mutable }), ⟨wall, 0⟩, 1⟩

def samplePut (origin : String) (c : Char) (wall : Int) : JournalEntry :=
  flaggedPut origin c wall false

end FondacoFormal.Repl
