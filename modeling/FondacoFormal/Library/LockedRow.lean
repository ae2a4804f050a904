import Mathlib.Data.List.Basic
import Mathlib.Logic.Relation

/-!
# Transactions that serialize on one locked row

Several transactions read and write one row. The first operation of a transaction takes the row
lock, which the transaction then holds until it commits or rolls back; every other transaction
waits.
-/

namespace FondacoFormal.Library.LockedRow

variable {σ ι ο τ : Type}

/-- A transaction that holds the lock: its own view of the row and its results so far. -/
structure Holder (σ ο τ : Type) where
  owner : τ
  working : σ
  results : List ο

/-- The committed row, the lock, and the results of the committed transactions, oldest first. -/
structure System (σ ο τ : Type) where
  committed : σ
  holder : Option (Holder σ ο τ)
  log : List (List ο)

namespace System

def initial (row : σ) : System σ ο τ :=
  ⟨row, none, []⟩

/--
One scheduling step.  `exec` runs one operation against the row the caller
sees; an operation that fails leaves its transaction only the rollback.
-/
inductive Step (exec : ι → σ → Option (σ × ο)) : System σ ο τ → System σ ο τ → Prop where
  | acquire {s : System σ ο τ} (owner : τ) (op : ι) {row : σ} {result : ο}
      (free : s.holder = none) (ran : exec op s.committed = some (row, result)) :
      Step exec s { s with holder := some ⟨owner, row, [result]⟩ }
  | call {s : System σ ο τ} {held : Holder σ ο τ} (op : ι) {row : σ} {result : ο}
      (locked : s.holder = some held) (ran : exec op held.working = some (row, result)) :
      Step exec s
        { s with holder := some ⟨held.owner, row, held.results ++ [result]⟩ }
  | commit {s : System σ ο τ} {held : Holder σ ο τ} (locked : s.holder = some held) :
      Step exec s ⟨held.working, none, s.log ++ [held.results]⟩
  | rollback {s : System σ ο τ} {held : Holder σ ο τ} (locked : s.holder = some held) :
      Step exec s { s with holder := none }

def Reachable (exec : ι → σ → Option (σ × ο)) (row : σ) (s : System σ ο τ) : Prop :=
  Relation.ReflTransGen (Step exec) (initial row) s

end System

/-- Running operations one after the other, with the results they produce. -/
inductive Serial (exec : ι → σ → Option (σ × ο)) : σ → List ο → σ → Prop where
  | refl (row : σ) : Serial exec row [] row
  | snoc {first last next : σ} {results : List ο} {result : ο} (op : ι)
      (before : Serial exec first results last) (ran : exec op last = some (next, result)) :
      Serial exec first (results ++ [result]) next

namespace Serial

variable {exec : ι → σ → Option (σ × ο)}

theorem single {first next : σ} {result : ο} (op : ι) (ran : exec op first = some (next, result)) :
    Serial exec first [result] next :=
  .snoc op (.refl first) ran

theorem trans {first middle last : σ} {before after : List ο}
    (hbefore : Serial exec first before middle) (hafter : Serial exec middle after last) :
    Serial exec first (before ++ after) last := by
  induction hafter with
  | refl => simpa using hbefore
  | snoc op _ ran ih =>
    rw [← List.append_assoc]
    exact .snoc op ih ran

/--
Invariant rule for serial runs: a relation between the row and the results so
far that holds at the start and survives every operation holds at the end.
-/
theorem invariant {first last : σ} {results : List ο} (Inv : σ → List ο → Prop)
    (start : Inv first [])
    (step : ∀ {row next : σ} {seen : List ο} {result : ο} (op : ι),
      Inv row seen → exec op row = some (next, result) → Inv next (seen ++ [result]))
    (run : Serial exec first results last) : Inv last results := by
  induction run with
  | refl => exact start
  | snoc op _ ran ih => exact step op ih ran

end Serial

variable {exec : ι → σ → Option (σ × ο)}

/-- What holds in every reachable state: committed work and held work are both serial. -/
theorem System.Reachable.serial {row : σ} {s : System σ ο τ} (reach : s.Reachable exec row) :
    Serial exec row s.log.flatten s.committed ∧
      ∀ held, s.holder = some held → Serial exec s.committed held.results held.working := by
  induction reach with
  | refl => exact ⟨.refl row, fun held impossible => by cases impossible⟩
  | tail _ step ih =>
    obtain ⟨committed, working⟩ := ih
    cases step with
    | acquire owner op free ran =>
      refine ⟨committed, ?_⟩
      intro held heq
      cases heq
      exact .single op ran
    | call op locked ran =>
      refine ⟨committed, ?_⟩
      intro held heq
      cases heq
      exact .snoc op (working _ locked) ran
    | commit locked =>
      refine ⟨?_, fun held impossible => by cases impossible⟩
      simpa using committed.trans (working _ locked)
    | rollback locked =>
      exact ⟨committed, fun held impossible => by cases impossible⟩

end FondacoFormal.Library.LockedRow
