import Mathlib.Data.List.Basic
import Mathlib.Logic.Function.Iterate

/-!
# Runs of a deterministic system

A system is a function from an operation and a state to the next state.  A run
is a list of operations; a condition on the state before each operation carries
an invariant along the whole run.
-/

namespace FondacoFormal.Library.Runs

variable {σ ι : Type*}

def runAll (step : ι → σ → σ) : List ι → σ → σ
  | [], s => s
  | op :: rest, s => runAll step rest (step op s)

def Meets (step : ι → σ → σ) (cond : σ → ι → Prop) : List ι → σ → Prop
  | [], _ => True
  | op :: rest, s => cond s op ∧ Meets step cond rest (step op s)

instance Meets.decidable (step : ι → σ → σ) (cond : σ → ι → Prop)
    [∀ s op, Decidable (cond s op)] : ∀ ops s, Decidable (Meets step cond ops s)
  | [], _ => inferInstanceAs (Decidable True)
  | op :: rest, s =>
    have := Meets.decidable step cond rest (step op s)
    inferInstanceAs (Decidable (cond s op ∧ Meets step cond rest (step op s)))

variable {step : ι → σ → σ} {cond : σ → ι → Prop}

theorem runAll_append (before after : List ι) (s : σ) :
    runAll step (before ++ after) s = runAll step after (runAll step before s) := by
  induction before generalizing s with
  | nil => rfl
  | cons op rest ih => exact ih (step op s)

variable {s : σ}

theorem meets_append {before after : List ι} :
    Meets step cond (before ++ after) s ↔
      Meets step cond before s ∧ Meets step cond after (runAll step before s) := by
  induction before generalizing s with
  | nil => simp [Meets, runAll]
  | cons op rest ih => simp [Meets, runAll, ih, and_assoc]

variable {ops : List ι}

/-- A condition that every operation meets whatever the state is met along every run. -/
theorem meets_of_forall (hops : ∀ op ∈ ops, ∀ s, cond s op) (s : σ) : Meets step cond ops s := by
  induction ops generalizing s with
  | nil => trivial
  | cons op rest ih =>
    exact ⟨hops op List.mem_cons_self s,
      ih (fun other hmem => hops other (List.mem_cons_of_mem op hmem)) (step op s)⟩

variable {also : σ → ι → Prop}

theorem Meets.and (hmeets : Meets step cond ops s) (halso : Meets step also ops s) :
    Meets step (fun s op => cond s op ∧ also s op) ops s := by
  induction ops generalizing s with
  | nil => trivial
  | cons op rest ih => exact ⟨⟨hmeets.1, halso.1⟩, ih hmeets.2 halso.2⟩

variable {P : σ → Prop}

/-- A condition that carries the invariant over one operation carries it over a run. -/
theorem invariant_runAll (hstep : ∀ s op, P s → cond s op → P (step op s)) (start : P s)
    (hmeets : Meets step cond ops s) : P (runAll step ops s) := by
  induction ops generalizing s with
  | nil => exact start
  | cons op rest ih => exact ih (hstep s op start hmeets.1) hmeets.2

/-- Conditions that say the same wherever an invariant holds are met by the same runs. -/
theorem meets_iff_of_invariant (hstep : ∀ s op, P s → P (step op s))
    (hcond : ∀ s op, P s → (cond s op ↔ also s op)) (start : P s) :
    Meets step cond ops s ↔ Meets step also ops s := by
  induction ops generalizing s with
  | nil => rfl
  | cons op rest ih => exact and_congr (hcond s op start) (ih (hstep s op start))

/-! ## Calls under way -/

/-- What holds of every call under way still does when one of them moves on. -/
theorem forall_calls_update {α β : Type*} [DecidableEq α] {calls : α → Option β} {P : β → Prop}
    {call : α} {next : Option β} (hcalls : ∀ i c, calls i = some c → P c)
    (hnext : ∀ c, next = some c → P c) : ∀ i c, Function.update calls call next i = some c → P c :=
  (Function.forall_update_iff calls fun _ next => ∀ c, next = some c → P c).mpr
    ⟨hnext, fun i _ => hcalls i⟩

/-! ## Answers -/

section Answers

variable {τ ο : Type*}

def outputs (step : ι → σ → σ × ο) : List ι → σ → List ο
  | [], _ => []
  | op :: rest, s => (step op s).2 :: outputs step rest (step op s).1

/-- A system whose steps agree with those of a specification answers like it, as long as its
operations meet the condition of the agreement. -/
theorem outputs_eq_of_simulation {step : ι → σ → σ × ο} {spec : ι → τ → τ × ο} {R : σ → τ → Prop}
    (hstep : ∀ s t op, R s t → cond s op →
      R (step op s).1 (spec op t).1 ∧ (step op s).2 = (spec op t).2) {t : τ} (start : R s t)
    (hmeets : Meets (fun op s => (step op s).1) cond ops s) :
    outputs step ops s = outputs spec ops t := by
  induction ops generalizing s t with
  | nil => rfl
  | cons op rest ih =>
    obtain ⟨hafter, hanswer⟩ := hstep s t op start hmeets.1
    rw [outputs, outputs, hanswer, ih hafter hmeets.2]

end Answers

/-! ## One operation again and again -/

/-- An operation that makes a measure smaller whenever it changes something comes to rest. -/
theorem exists_fixed_iterate {pass : σ → σ} (measure : σ → Nat) (hstep : ∀ s, P s → P (pass s))
    (hless : ∀ s, P s → pass s ≠ s → measure (pass s) < measure s) (start : P s) :
    ∃ n, P (pass^[n] s) ∧ pass (pass^[n] s) = pass^[n] s := by
  induction hm : measure s using Nat.strongRecOn generalizing s with
  | _ m ih =>
    by_cases hfixed : pass s = s
    · exact ⟨0, start, hfixed⟩
    · obtain ⟨n, hn⟩ := ih _ (hm ▸ hless s start hfixed) (hstep s start) rfl
      exact ⟨n + 1, by rw [Function.iterate_succ_apply]; exact hn⟩

end FondacoFormal.Library.Runs
