import FondacoFormal.Library.LockedRow
import FondacoFormal.State.Clock

/-!
# Stamps and sequence numbers under concurrent transactions

Every clock function updates the one `hlc_state` row, so the transactions that
call them serialize on its lock.  Committed stamps grow in commit order and the
site's own journal entries are numbered without a gap.
-/

namespace FondacoFormal.State

open Library Library.LockedRow

/-- One statement against the clock row; wall readings are the caller's. -/
inductive ClockOp where
  | appendJournal (nowMs : Int)
  | hlcNow (nowMs : Int)
  | hlcRecv (peer : HLC)
  deriving DecidableEq, Repr

inductive ClockResult where
  | appended (seq : Int) (h : HLC)
  | stamped (h : HLC)
  | received (peer : HLC)
  deriving DecidableEq, Repr

namespace ClockResult

def stamp : ClockResult → HLC
  | appended _ h => h
  | stamped h => h
  | received peer => peer

def issued : ClockResult → Option HLC
  | appended _ h => some h
  | stamped h => some h
  | received _ => none

def entry : ClockResult → Option (Int × HLC)
  | appended seq h => some (seq, h)
  | stamped _ => none
  | received _ => none

/-- If `later` issued a stamp, it is newer than the stamp of `earlier`. -/
def Precedes (earlier later : ClockResult) : Prop :=
  ∀ h, later.issued = some h → earlier.stamp < h

theorem Precedes.entries {earlier later : ClockResult} (hprecedes : earlier.Precedes later)
    {first second : Int × HLC} (hfirst : earlier.entry = some first)
    (hsecond : later.entry = some second) : first.2 < second.2 := by
  cases earlier with
  | appended seq h =>
    cases later with
    | appended nextSeq next =>
      cases hfirst
      cases hsecond
      exact hprecedes next rfl
    | stamped next | received peer => cases hsecond
  | stamped h | received peer => cases hfirst

end ClockResult

/-- Run one statement; a number that leaves `BIGINT` aborts the transaction. -/
def ClockOp.exec : ClockOp → HlcState → Option (HlcState × ClockResult)
  | .appendJournal nowMs, st =>
    (replHlcNext nowMs st).toOption.map fun (next, seq, h) => (next, .appended seq h)
  | .hlcNow nowMs, st =>
    (replHlcNow nowMs st).toOption.map fun (next, h) => (next, .stamped h)
  | .hlcRecv peer, st =>
    (replHlcRecv peer st).toOption.map fun next => (next, .received peer)

abbrev ClockSystem (τ : Type) : Type := LockedRow.System HlcState ClockResult τ

def ownEntries {τ : Type} (s : ClockSystem τ) : List (Int × HLC) :=
  s.log.flatten.filterMap ClockResult.entry

/-! ## One statement -/

variable {result : ClockResult} {st next : HlcState} {op : ClockOp}

theorem ClockOp.exec_ok (ran : op.exec st = some (next, result)) :
    st.stamp ≤ next.stamp ∧ result.stamp ≤ next.stamp ∧
      (∀ h, result.issued = some h → st.stamp < h) ∧
      (∀ seq h, result.entry = some (seq, h) →
        seq = st.lastSeq + 1 ∧ next.lastSeq = st.lastSeq + 1) ∧
      (result.entry = none → next.lastSeq = st.lastSeq) := by
  cases op with
  | appendJournal nowMs =>
    obtain ⟨⟨row, seq, h⟩, hran, heq⟩ := Option.map_eq_some_iff.mp ran
    cases heq
    obtain ⟨hstamp, hlt, hlast, hseq⟩ := replHlcNext_ok (Fallible.toOption_eq_some.mp hran)
    subst hstamp
    refine ⟨hlt.le, le_rfl, ?_, ?_, ?_⟩
    · intro h hissued
      cases hissued
      exact hlt
    · intro entrySeq h hentry
      cases hentry
      exact ⟨hseq.trans hlast, hlast⟩
    · intro impossible
      cases impossible
  | hlcNow nowMs =>
    obtain ⟨⟨row, h⟩, hran, heq⟩ := Option.map_eq_some_iff.mp ran
    cases heq
    obtain ⟨hstamp, hlt, hlast⟩ := replHlcNow_ok (Fallible.toOption_eq_some.mp hran)
    subst hstamp
    refine ⟨hlt.le, le_rfl, ?_, ?_, fun _ => hlast⟩
    · intro h hissued
      cases hissued
      exact hlt
    · intro seq h impossible
      cases impossible
  | hlcRecv peer =>
    obtain ⟨row, hran, heq⟩ := Option.map_eq_some_iff.mp ran
    cases heq
    obtain ⟨hpeer, hle, hlast⟩ := replHlcRecv_ok (Fallible.toOption_eq_some.mp hran)
    refine ⟨hle, hpeer.le, ?_, ?_, fun _ => hlast⟩
    · intro h impossible
      cases impossible
    · intro seq h impossible
      cases impossible

/-! ## Serial runs -/

structure ClockInvariant (st : HlcState) (results : List ClockResult) : Prop where
  bounded : ∀ result ∈ results, result.stamp ≤ st.stamp
  ordered : results.Pairwise ClockResult.Precedes
  lastSeq : st.lastSeq = (results.filterMap ClockResult.entry).length
  numbered : (results.filterMap ClockResult.entry).map Prod.fst =
    (List.range (results.filterMap ClockResult.entry).length).map fun i : Nat => (i : Int) + 1

theorem ClockInvariant.initial : ClockInvariant HlcState.initial [] := by
  constructor <;> simp [HlcState.initial]

variable {results : List ClockResult}

theorem ClockInvariant.step (inv : ClockInvariant st results)
    (ran : op.exec st = some (next, result)) : ClockInvariant next (results ++ [result]) := by
  obtain ⟨hgrow, hresult, hissued, hentry, hnone⟩ := ClockOp.exec_ok ran
  have hbounded : ∀ earlier ∈ results ++ [result], earlier.stamp ≤ next.stamp := by
    intro earlier hmem
    rcases List.mem_append.mp hmem with hold | hnew
    · exact (inv.bounded earlier hold).trans hgrow
    · rw [List.mem_singleton.mp hnew]
      exact hresult
  have hordered : (results ++ [result]).Pairwise ClockResult.Precedes := by
    rw [List.pairwise_append]
    refine ⟨inv.ordered, List.pairwise_singleton _ _, ?_⟩
    intro earlier hold later hnew h hlater
    rw [List.mem_singleton.mp hnew] at hlater
    exact (inv.bounded earlier hold).trans_lt (hissued h hlater)
  cases hcase : result.entry with
  | none =>
    have hsame : (results ++ [result]).filterMap ClockResult.entry =
        results.filterMap ClockResult.entry := by
      simp [List.filterMap_append, hcase]
    refine ⟨hbounded, hordered, ?_, ?_⟩
    · rw [hsame, hnone hcase]
      exact inv.lastSeq
    · rw [hsame]
      exact inv.numbered
  | some entry =>
    obtain ⟨seq, h⟩ := entry
    obtain ⟨hseq, hlast⟩ := hentry seq h hcase
    have hsnoc : (results ++ [result]).filterMap ClockResult.entry =
        results.filterMap ClockResult.entry ++ [(seq, h)] := by
      simp [List.filterMap_append, hcase]
    refine ⟨hbounded, hordered, ?_, ?_⟩
    · rw [hsnoc, hlast, inv.lastSeq]
      simp
    · rw [hsnoc, List.map_append, inv.numbered, List.length_append, List.length_singleton,
        List.range_succ, List.map_append, hseq, inv.lastSeq]
      rfl

theorem ClockInvariant.run {last : HlcState}
    (run : Serial ClockOp.exec HlcState.initial results last) : ClockInvariant last results :=
  run.invariant ClockInvariant .initial fun _ inv ran => inv.step ran

/-! ## Every interleaving -/

/--
In every interleaving of clock transactions: a committed stamp is newer than
every stamp issued or received by a transaction committed before, and the own
journal entries carry the numbers `1, …, n`, in commit order and in stamp order.
-/
theorem committed_clock_order {τ : Type} (s : ClockSystem τ)
    (reach : s.Reachable ClockOp.exec HlcState.initial) :
    s.log.Pairwise (fun earlier later =>
      ∀ seen ∈ earlier, ∀ result ∈ later, ∀ h, result.issued = some h →
        seen.stamp.before h = true) ∧
    (ownEntries s).map Prod.fst =
      (List.range (ownEntries s).length).map (fun i : Nat => (i : Int) + 1) ∧
    (ownEntries s).Pairwise (fun earlier later => earlier.2.before later.2 = true) := by
  have inv := ClockInvariant.run reach.serial.1
  have hentries : (ownEntries s).Pairwise (fun earlier later => earlier.2 < later.2) := by
    unfold ownEntries
    rw [List.pairwise_filterMap]
    refine inv.ordered.imp ?_
    intro earlier later hprecedes first hfirst second hsecond
    exact hprecedes.entries hfirst hsecond
  refine ⟨?_, inv.numbered, ?_⟩
  · refine (List.pairwise_flatten.mp inv.ordered).2.imp ?_
    intro earlier later hprecedes seen hseen result hresult h hissued
    exact HLC.before_iff.mpr (hprecedes seen hseen result hresult h hissued)
  · refine hentries.imp ?_
    intro earlier later hlt
    exact HLC.before_iff.mpr hlt

def rollbackSystem : ClockSystem Nat where
  committed := ⟨5, 5, 2⟩
  holder := none
  log := [[.appended 1 ⟨5, 0⟩], [.received ⟨5, 3⟩, .appended 2 ⟨5, 5⟩]]

theorem rollbackSystem_reachable : rollbackSystem.Reachable ClockOp.exec HlcState.initial := by
  let first : Holder HlcState ClockResult Nat := ⟨1, ⟨5, 0, 1⟩, [.appended 1 ⟨5, 0⟩]⟩
  let aborted : Holder HlcState ClockResult Nat := ⟨2, ⟨9, 0, 2⟩, [.appended 2 ⟨9, 0⟩]⟩
  let last : Holder HlcState ClockResult Nat :=
    ⟨3, ⟨5, 5, 2⟩, [.received ⟨5, 3⟩, .appended 2 ⟨5, 5⟩]⟩
  have committed : System.Reachable ClockOp.exec HlcState.initial
      (⟨first.working, none, [first.results]⟩ : ClockSystem Nat) :=
    (Relation.ReflTransGen.refl.tail (.acquire 1 (.appendJournal 5) rfl rfl)).tail
      (@System.Step.commit _ _ _ _ _ _ first rfl)
  have rolledBack : System.Reachable ClockOp.exec HlcState.initial
      (⟨first.working, none, [first.results]⟩ : ClockSystem Nat) :=
    (committed.tail (.acquire 2 (.appendJournal 9) rfl rfl)).tail
      (@System.Step.rollback _ _ _ _ _ _ aborted rfl)
  have received := rolledBack.tail (.acquire 3 (.hlcRecv ⟨5, 3⟩) rfl rfl)
  exact (received.tail (.call (.appendJournal 2) rfl rfl)).tail
    (@System.Step.commit _ _ _ _ _ _ last rfl)

theorem committed_clock_order_rollback :
    rollbackSystem.Reachable ClockOp.exec HlcState.initial ∧
      ownEntries rollbackSystem = [(1, ⟨5, 0⟩), (2, ⟨5, 5⟩)] ∧
      (ownEntries rollbackSystem).Pairwise
        (fun earlier later => earlier.2.before later.2 = true) :=
  ⟨rollbackSystem_reachable, rfl,
    (committed_clock_order rollbackSystem rollbackSystem_reachable).2.2⟩

end FondacoFormal.State
