import FondacoFormal.Library.Fallible
import Mathlib.Data.Prod.Lex
import Mathlib.Data.Int.Order.Basic
import Mathlib.Data.Int.Order.Lemmas

/-!
# The hybrid logical clock

Stamps, their order, and the three database functions that advance the single
`hlc_state` row.  `BIGINT` arithmetic raises an error instead of wrapping, so
each function is partial.
-/

namespace FondacoFormal.State

open Library.Fallible

/-- `state.HLC`: wall-clock milliseconds and a logical counter. -/
@[ext] structure HLC where
  wall : Int
  logical : Int
  deriving DecidableEq, Repr

namespace HLC

/-- `HLC.Before`. -/
def before (h other : HLC) : Bool :=
  if h.wall ≠ other.wall then decide (h.wall < other.wall)
  else decide (h.logical < other.logical)

/-- The columns `(hlc_wall, hlc_logical)` as SQL compares them. -/
def key (h : HLC) : Int ×ₗ Int :=
  toLex (h.wall, h.logical)

theorem key_injective : Function.Injective key := by
  intro left right heq
  have hpair : (left.wall, left.logical) = (right.wall, right.logical) := heq
  exact HLC.ext (congrArg Prod.fst hpair) (congrArg Prod.snd hpair)

instance : LinearOrder HLC := LinearOrder.lift' key key_injective

variable {h other : HLC}

theorem lt_iff : h < other ↔ h.wall < other.wall ∨ h.wall = other.wall ∧
    h.logical < other.logical :=
  Prod.Lex.toLex_lt_toLex

theorem le_iff : h ≤ other ↔ h.wall < other.wall ∨ h.wall = other.wall ∧
    h.logical ≤ other.logical :=
  Prod.Lex.toLex_le_toLex

@[simp] theorem before_iff : h.before other = true ↔ h < other := by
  rw [lt_iff]
  unfold before
  split
  · rename_i hne
    simp only [decide_eq_true_eq, hne, false_and, or_false]
  · rename_i heq
    simp only [ne_eq, not_not] at heq
    simp [heq]

end HLC

inductive SqlCause where
  | numericOutOfRange
  | uniqueViolation
  | invalidText
  | limitExceeded
  deriving DecidableEq, Repr

/-- A `BIGINT` result: 64 bits, or an error. -/
def bigint (n : Int) : Except SqlCause Int :=
  if -2 ^ 63 ≤ n ∧ n < 2 ^ 63 then .ok n else .error .numericOutOfRange

/-- The `hlc_state` row. -/
structure HlcState where
  wallMs : Int
  logical : Int
  lastSeq : Int
  deriving DecidableEq, Repr

namespace HlcState

def initial : HlcState :=
  ⟨0, 0, 0⟩

def stamp (st : HlcState) : HLC :=
  ⟨st.wallMs, st.logical⟩

end HlcState

/-- The logical counter of a local stamp, computed from the wall reading and the old row. -/
def tickLogical (nowMs : Int) (st : HlcState) : Except SqlCause Int :=
  if nowMs > st.wallMs then .ok 0 else bigint (st.logical + 1)

def recvLogical (peer : HLC) (st : HlcState) : Except SqlCause Int :=
  if peer.wall > st.wallMs then bigint (peer.logical + 1)
  else if peer.wall = st.wallMs then bigint (max st.logical peer.logical + 1)
  else .ok st.logical

/-- `repl_hlc_now`: stamp a local change without consuming a sequence number. -/
def replHlcNow (nowMs : Int) (st : HlcState) : Except SqlCause (HlcState × HLC) := do
  let logical ← tickLogical nowMs st
  let next : HlcState := { st with wallMs := max st.wallMs nowMs, logical := logical }
  return (next, next.stamp)

/-- `repl_hlc_next`: a stamp together with the next journal sequence number. -/
def replHlcNext (nowMs : Int) (st : HlcState) : Except SqlCause (HlcState × Int × HLC) := do
  let logical ← tickLogical nowMs st
  let lastSeq ← bigint (st.lastSeq + 1)
  let next : HlcState := ⟨max st.wallMs nowMs, logical, lastSeq⟩
  return (next, lastSeq, next.stamp)

/-- `repl_hlc_recv`: move the clock past a stamp observed from a peer. -/
def replHlcRecv (peer : HLC) (st : HlcState) : Except SqlCause HlcState := do
  let logical ← recvLogical peer st
  return { st with wallMs := max st.wallMs peer.wall, logical := logical }

/-! ## What each function does to the row -/

theorem bigint_eq_ok {n m : Int} (h : bigint n = .ok m) : m = n := by
  unfold bigint at h
  split at h
  · cases h
    rfl
  · cases h

variable {nowMs : Int} {st : HlcState}

theorem stamp_lt_of_tickLogical {logical : Int} (hlogical : tickLogical nowMs st = .ok logical) :
    st.stamp < ⟨max st.wallMs nowMs, logical⟩ := by
  rw [HLC.lt_iff]
  simp only [HlcState.stamp]
  unfold tickLogical at hlogical
  split at hlogical
  · left
    omega
  · have hnext := bigint_eq_ok hlogical
    omega

variable {next : HlcState}

theorem replHlcNow_ok {h : HLC} (ran : replHlcNow nowMs st = .ok (next, h)) :
    h = next.stamp ∧ st.stamp < next.stamp ∧ next.lastSeq = st.lastSeq := by
  unfold replHlcNow at ran
  obtain ⟨logical, hlogical, ran⟩ := bind_eq_ok.mp ran
  cases ran
  exact ⟨rfl, stamp_lt_of_tickLogical hlogical, rfl⟩

theorem replHlcNext_ok {seq : Int} {h : HLC} (ran : replHlcNext nowMs st = .ok (next, seq, h)) :
    h = next.stamp ∧ st.stamp < next.stamp ∧ next.lastSeq = st.lastSeq + 1 ∧
      seq = next.lastSeq := by
  unfold replHlcNext at ran
  obtain ⟨logical, hlogical, ran⟩ := bind_eq_ok.mp ran
  obtain ⟨lastSeq, hseq, ran⟩ := bind_eq_ok.mp ran
  cases ran
  exact ⟨rfl, stamp_lt_of_tickLogical hlogical, bigint_eq_ok hseq, rfl⟩

theorem replHlcRecv_ok {peer : HLC} (ran : replHlcRecv peer st = .ok next) :
    peer < next.stamp ∧ st.stamp ≤ next.stamp ∧ next.lastSeq = st.lastSeq := by
  unfold replHlcRecv at ran
  obtain ⟨logical, hlogical, ran⟩ := bind_eq_ok.mp ran
  cases ran
  simp only [HLC.lt_iff, HLC.le_iff, HlcState.stamp, and_true]
  unfold recvLogical at hlogical
  -- The three cases of the SQL `CASE`: the peer is ahead, level, or behind.
  split at hlogical
  · have hnext := bigint_eq_ok hlogical
    constructor <;> omega
  · split at hlogical
    · have hnext := bigint_eq_ok hlogical
      constructor <;> omega
    · cases hlogical
      constructor <;> omega

end FondacoFormal.State
