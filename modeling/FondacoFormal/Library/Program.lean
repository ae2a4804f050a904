import Mathlib.Logic.Basic

/-!
# Programs over a state

A program changes a state and answers or fails; a failure keeps what was changed
before it.  There is one rule per construct for comparing two runs, and one for what a
run establishes about its answer.
-/

namespace FondacoFormal.Library

/-- A program over states `σ` that fails with an `ε` or answers with an `α`. -/
def Program (σ ε α : Type) : Type :=
  σ → σ × Except ε α

namespace Program

variable {σ ε α β : Type}

instance : Monad (Program σ ε) where
  pure a s := (s, .ok a)
  bind x f s :=
    match x s with
    | (s', .ok a) => f a s'
    | (s', .error e) => (s', .error e)

def fail (e : ε) : Program σ ε α :=
  fun s => (s, .error e)

def lift (result : Except ε α) : Program σ ε α :=
  fun s => (s, result)

def reads (f : σ → α) : Program σ ε α :=
  fun s => (s, .ok (f s))

def update (f : σ → σ) : Program σ ε Unit :=
  fun s => (f s, .ok ())

def attempt (x : Program σ ε α) : Program σ ε (Except ε α) :=
  fun s => ((x s).1, .ok (x s).2)

theorem bind_apply (x : Program σ ε α) (f : α → Program σ ε β) (s : σ) :
    (x >>= f) s =
      match x s with
      | (s', .ok a) => f a s'
      | (s', .error e) => (s', .error e) :=
  rfl

theorem pure_apply (a : α) (s : σ) : (pure a : Program σ ε α) s = (s, .ok a) :=
  rfl

/-! ## Running a program -/

variable {x : Program σ ε α} {f : α → Program σ ε β} {s s' : σ} {a : α}

theorem bind_of_ok (h : x s = (s', .ok a)) : (x >>= f) s = f a s' := by
  rw [bind_apply, h]

theorem bind_reads {g : σ → α} : (reads g >>= f) s = f (g s) s := rfl

theorem bind_of_answer {s : σ} (h : (x s).2 = .ok a) : (x >>= f) s = f a (x s).1 :=
  bind_of_ok (Prod.ext rfl h)

theorem bind_of_error {e : ε} (h : x s = (s', .error e)) : (x >>= f) s = (s', .error e) := by
  rw [bind_apply, h]

variable {ended : Except ε α}

theorem attempt_run (h : x s = (s', ended)) : attempt x s = (s', .ok ended) := by
  unfold attempt
  rw [h]

theorem bind_of_attempt {f : Except ε α → Program σ ε β} {s : σ} (h : (x s).2 = ended) :
    (attempt x >>= f) s = f ended (x s).1 :=
  bind_of_ok (attempt_run (Prod.ext rfl h))

/-! ## Two runs side by side -/

/-- From related states the two programs answer alike, with an answer that passes a test,
and leave related states. -/
def Alike (R : σ → σ → Prop) (P : α → Prop) (x y : Program σ ε α) : Prop :=
  ∀ s t, R s t → R (x s).1 (y t).1 ∧ (x s).2 = (y t).2 ∧ ∀ a, (x s).2 = .ok a → P a

namespace Alike

variable {R : σ → σ → Prop} {P : α → Prop} {Q : β → Prop}

theorem lift {result : Except ε α} (h : ∀ a, result = .ok a → P a) :
    Alike R P (Program.lift result : Program σ ε α) (Program.lift result) :=
  fun _ _ hst => ⟨hst, rfl, h⟩

theorem pure (h : P a) : Alike R P (Pure.pure a : Program σ ε α) (Pure.pure a) := by
  apply lift
  intro b heq
  cases heq
  exact h

theorem fail (e : ε) : Alike R P (Program.fail e : Program σ ε α) (Program.fail e) :=
  lift fun _ heq => nomatch heq

theorem reads {f g : σ → α} (h : ∀ s t, R s t → f s = g t ∧ P (f s)) :
    Alike R P (Program.reads f : Program σ ε α) (Program.reads g) := by
  intro s t hst
  obtain ⟨heq, htest⟩ := h s t hst
  refine ⟨hst, congrArg Except.ok heq, ?_⟩
  intro a ha
  cases ha
  exact htest

theorem update {f g : σ → σ} (h : ∀ s t, R s t → R (f s) (g t)) :
    Alike R (fun _ => True) (Program.update f : Program σ ε Unit) (Program.update g) :=
  fun s t hst => ⟨h s t hst, rfl, fun _ _ => trivial⟩

theorem mono {P' : α → Prop} {x y : Program σ ε α} (hx : Alike R P x y) (h : ∀ a, P a → P' a) :
    Alike R P' x y := by
  intro s t hst
  obtain ⟨hrelated, hanswer, htest⟩ := hx s t hst
  exact ⟨hrelated, hanswer, fun a ha => h a (htest a ha)⟩

theorem bind {x y : Program σ ε α} {f g : α → Program σ ε β} (hx : Alike R P x y)
    (hf : ∀ a, P a → Alike R Q (f a) (g a)) : Alike R Q (x >>= f) (y >>= g) := by
  intro s t hst
  obtain ⟨hrelated, hanswer, htest⟩ := hx s t hst
  rw [bind_apply, bind_apply]
  rcases hrun : x s with ⟨s', ended⟩
  rcases hother : y t with ⟨t', other⟩
  rw [hrun, hother] at hrelated hanswer
  rw [hrun] at htest
  obtain rfl : ended = other := hanswer
  cases ended with
  | error e => exact ⟨hrelated, rfl, fun _ heq => nomatch heq⟩
  | ok a => exact hf a (htest a rfl) s' t' hrelated

theorem attempt {x y : Program σ ε α} (hx : Alike R P x y) :
    Alike R (fun ended => ∀ a, ended = .ok a → P a) (Program.attempt x) (Program.attempt y) := by
  intro s t hst
  obtain ⟨hrelated, hanswer, htest⟩ := hx s t hst
  refine ⟨hrelated, congrArg Except.ok hanswer, ?_⟩
  intro ended hended a ha
  cases hended
  exact htest a ha

theorem caught {x y : Program σ ε α} {f g : Except ε α → Program σ ε β} (hx : Alike R P x y)
    (hok : ∀ a, P a → Alike R Q (f (.ok a)) (g (.ok a)))
    (herror : ∀ e, Alike R Q (f (.error e)) (g (.error e))) :
    Alike R Q (Program.attempt x >>= f) (Program.attempt y >>= g) := by
  apply bind hx.attempt
  intro ended hended
  cases ended with
  | ok a => exact hok a (hended a rfl)
  | error e => exact herror e

end Alike

/-! ## What a run establishes -/

theorem bind_ok {s : σ} {b : β} (h : ((x >>= f) s).2 = .ok b) :
    ∃ a, (x s).2 = .ok a ∧ (f a (x s).1).2 = .ok b := by
  rw [bind_apply] at h
  rcases hrun : x s with ⟨s', e | a⟩
  · rw [hrun] at h
    cases h
  · rw [hrun] at h
    exact ⟨a, rfl, h⟩

/-- The program always answers, with an answer that passes a test. -/
def Answers (P : α → Prop) (x : Program σ ε α) : Prop :=
  ∀ s, ∃ a, (x s).2 = .ok a ∧ P a

namespace Answers

variable {P : α → Prop} {Q : β → Prop}

theorem pure (h : P a) : Answers P (Pure.pure a : Program σ ε α) :=
  fun _ => ⟨a, rfl, h⟩

theorem bind (hx : Answers P x) (hf : ∀ a, P a → Answers Q (f a)) : Answers Q (x >>= f) := by
  intro s
  obtain ⟨a, hanswer, htest⟩ := hx s
  rw [bind_of_answer hanswer]
  exact hf a htest _

theorem attempt (x : Program σ ε α) : Answers (fun _ => True) (Program.attempt x) :=
  fun _ => ⟨_, rfl, trivial⟩

end Answers

end Program

end FondacoFormal.Library
