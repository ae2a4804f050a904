import Mathlib.Data.List.Basic
import Mathlib.Logic.Function.Basic

/-!
# Transactions at the READ COMMITTED level

A transaction sees the committed rows with its own writes over them. Writing a row takes its
lock, which is held until the transaction ends; a write to a row locked by another transaction
has to wait.
-/

namespace FondacoFormal.Library.ReadCommitted

/-- Writes of type `ω` to single rows, named by `κ`, of a database of type `σ`. -/
class RowWrites (ω : Type) (σ κ : outParam Type) where
  apply : ω → σ → σ
  row : ω → κ

/-- The committed rows, the writes of each open transaction, and who locks which row. -/
structure Database (σ ω κ τ : Type) where
  committed : σ
  own : τ → List ω
  lock : κ → Option τ

namespace Database

variable {σ ω κ τ : Type} [RowWrites ω σ κ] [DecidableEq κ] [DecidableEq τ]

def quiet (s : σ) : Database σ ω κ τ :=
  ⟨s, fun _ => [], fun _ => none⟩

def view (db : Database σ ω κ τ) (tx : τ) : σ :=
  (db.own tx).foldl (fun s w => RowWrites.apply w s) db.committed

def Free (db : Database σ ω κ τ) (tx : τ) (row : κ) : Prop :=
  db.lock row = none ∨ db.lock row = some tx

instance (db : Database σ ω κ τ) (tx : τ) (row : κ) : Decidable (db.Free tx row) :=
  inferInstanceAs (Decidable (_ ∨ _))

def write (db : Database σ ω κ τ) (tx : τ) (w : ω) : Database σ ω κ τ where
  committed := db.committed
  own := Function.update db.own tx (db.own tx ++ [w])
  lock := Function.update db.lock (RowWrites.row w) (some tx)

def released (db : Database σ ω κ τ) (tx : τ) (row : κ) : Option τ :=
  if db.lock row = some tx then none else db.lock row

def commit (db : Database σ ω κ τ) (tx : τ) : Database σ ω κ τ where
  committed := db.view tx
  own := Function.update db.own tx []
  lock := db.released tx

def rollback (db : Database σ ω κ τ) (tx : τ) : Database σ ω κ τ where
  committed := db.committed
  own := Function.update db.own tx []
  lock := db.released tx

/-! ## What each operation shows to whom -/

variable {db : Database σ ω κ τ} {tx other : τ} {w : ω}

omit [DecidableEq κ] [DecidableEq τ] in
theorem view_of_own_nil (hown : db.own tx = []) : db.view tx = db.committed := by
  unfold view
  rw [hown]
  rfl

theorem view_write : (db.write tx w).view tx = RowWrites.apply w (db.view tx) := by
  unfold view write
  simp

theorem own_write_of_ne (hne : other ≠ tx) : (db.write tx w).own other = db.own other :=
  Function.update_of_ne hne _ _

omit [RowWrites ω σ κ] [DecidableEq κ] in
theorem released_eq_some {row : κ} :
    db.released tx row = some other ↔ db.lock row = some other ∧ other ≠ tx := by
  unfold released
  split
  · rename_i hself
    rw [hself]
    simp only [reduceCtorEq, false_iff, Option.some.injEq, not_and, not_not]
    exact fun heq => heq.symm
  · rename_i hself
    constructor
    · intro hlock
      exact ⟨hlock, fun heq => hself (heq ▸ hlock)⟩
    · exact And.left

/-! ## A gate -/

/-- Every transaction with writes holds the gate, and only transactions with writes hold locks. -/
structure Gated (gate : κ) (db : Database σ ω κ τ) : Prop where
  writer : ∀ tx, db.own tx ≠ [] → db.lock gate = some tx
  holder : ∀ row tx, db.lock row = some tx → db.own tx ≠ []

variable {gate : κ}

omit [RowWrites ω σ κ] [DecidableEq κ] [DecidableEq τ] in
theorem quiet_gated (s : σ) : Gated gate (quiet s : Database σ ω κ τ) :=
  ⟨fun _ hne => absurd rfl hne, fun _ _ hlock => (nomatch hlock)⟩

namespace Gated

omit [RowWrites ω σ κ] [DecidableEq κ] [DecidableEq τ] in
theorem free (gated : Gated gate db) (hgate : db.Free tx gate) (row : κ) : db.Free tx row := by
  cases hlock : db.lock row with
  | none => exact .inl hlock
  | some other =>
    have hother := gated.writer other (gated.holder row other hlock)
    rcases hgate with hnone | hself
    · rw [hnone] at hother
      cases hother
    · rw [hself] at hother
      cases hother
      exact .inr hlock

omit [RowWrites ω σ κ] [DecidableEq κ] [DecidableEq τ] in
theorem own_other (gated : Gated gate db) (hgate : db.Free tx gate) (hne : other ≠ tx) :
    db.own other = [] := by
  by_contra hown
  have hother := gated.writer other hown
  rcases hgate with hnone | hself
  · rw [hnone] at hother
    cases hother
  · rw [hself] at hother
    cases hother
    exact hne rfl

theorem write (gated : Gated gate db) (hgate : db.Free tx gate)
    (hheld : RowWrites.row w = gate ∨ db.lock gate = some tx) : Gated gate (db.write tx w) := by
  have hown : (db.write tx w).own tx ≠ [] := by
    unfold Database.write
    simp
  refine ⟨?_, ?_⟩
  · intro other hother
    by_cases heq : other = tx
    · subst heq
      unfold Database.write
      dsimp only
      by_cases hrow : gate = RowWrites.row w
      · rw [hrow, Function.update_self]
      · rw [Function.update_of_ne hrow]
        exact hheld.resolve_left fun hgateRow => hrow hgateRow.symm
    · rw [own_write_of_ne heq] at hother
      exact absurd (gated.own_other hgate heq) hother
  · intro row other hlock
    unfold Database.write at hlock
    dsimp only at hlock
    by_cases hrow : row = RowWrites.row w
    · rw [hrow, Function.update_self] at hlock
      cases hlock
      exact hown
    · rw [Function.update_of_ne hrow] at hlock
      by_cases heq : other = tx
      · rw [heq]
        exact hown
      · rw [own_write_of_ne heq]
        exact gated.holder row other hlock

omit [RowWrites ω σ κ] [DecidableEq κ] in
theorem ended (gated : Gated gate db) {later : Database σ ω κ τ}
    (hown : later.own = Function.update db.own tx []) (hlock : later.lock = db.released tx) :
    Gated gate later := by
  refine ⟨?_, ?_⟩
  · intro other hother
    rw [hown] at hother
    by_cases heq : other = tx
    · rw [heq, Function.update_self] at hother
      exact absurd rfl hother
    · rw [Function.update_of_ne heq] at hother
      rw [hlock]
      exact released_eq_some.mpr ⟨gated.writer other hother, heq⟩
  · intro row other hrow
    rw [hlock] at hrow
    obtain ⟨hheld, heq⟩ := released_eq_some.mp hrow
    rw [hown, Function.update_of_ne heq]
    exact gated.holder row other hheld

end Gated

end Database

end FondacoFormal.Library.ReadCommitted
