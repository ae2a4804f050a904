import FondacoFormal.Library.Runs

/-!
# The circuit breaker of an upstream

`fetchTarget` asks `Allow` before it works, retries in a loop and reports to the breaker with
`Success` and `Failure`.
-/

namespace FondacoFormal.Pipeline

open Library.Runs

/-! ## The breaker -/

inductive Circuit where
  | closed
  | halfOpen
  | opened
  deriving DecidableEq, Repr

/-- `Breaker`. -/
structure Breaker where
  threshold : Int
  cooldown : Int
  failures : Int := 0
  state : Circuit := .closed
  openedAt : Int := 0
  probeInFlight : Bool := false
  deriving DecidableEq, Repr

/-- `NewBreaker`; durations are in nanoseconds. -/
def newBreaker (threshold cooldown : Int) : Breaker where
  threshold := if threshold ≤ 0 then 5 else threshold
  cooldown := if cooldown ≤ 0 then 15000000000 else cooldown

namespace Breaker

def Due (b : Breaker) (now : Int) : Prop :=
  b.state = .opened ∧ b.cooldown ≤ now - b.openedAt
  deriving Decidable

/-- `Allow`. -/
def allow (b : Breaker) (now : Int) : Bool × Breaker :=
  match b.state with
  | .closed => (true, b)
  | .opened =>
    if b.cooldown ≤ now - b.openedAt then
      (true, { b with state := .halfOpen, probeInFlight := true })
    else (false, b)
  | .halfOpen => if b.probeInFlight then (false, b) else (true, { b with probeInFlight := true })

/-- `Success`. -/
def success (b : Breaker) : Breaker :=
  { b with failures := 0, state := .closed, probeInFlight := false }

/-- `Failure`. -/
def failure (b : Breaker) (now : Int) : Breaker :=
  if b.state = .halfOpen then { b with state := .opened, openedAt := now, probeInFlight := false }
  else if b.threshold ≤ b.failures + 1 then
    { b with failures := b.failures + 1, state := .opened, openedAt := now }
  else { b with failures := b.failures + 1 }

@[simp] theorem success_state (b : Breaker) : b.success.state = .closed :=
  rfl

/-- `Allow` refuses, admits to a closed breaker, or admits the probe. -/
theorem allow_spec {b : Breaker} (hflag : b.state = .halfOpen → b.probeInFlight = true)
    (now : Int) :
    b.allow now = (false, b) ∨ (b.state = .closed ∧ b.allow now = (true, b)) ∨
      (b.Due now ∧ b.allow now = (true, { b with state := .halfOpen, probeInFlight := true })) := by
  cases hstate : b.state with
  | closed => exact .inr (.inl ⟨rfl, by simp [allow, hstate]⟩)
  | halfOpen => exact .inl (by simp [allow, hstate, hflag hstate])
  | opened =>
    by_cases hdue : b.cooldown ≤ now - b.openedAt
    · exact .inr (.inr ⟨⟨hstate, hdue⟩, by simp [allow, hstate, hdue]⟩)
    · exact .inl (by simp [allow, hstate, hdue])

theorem failure_state_ne (b : Breaker) (now : Int) : (b.failure now).state ≠ .halfOpen := by
  by_cases hhalf : b.state = .halfOpen
  · simp [failure, hhalf]
  · by_cases hmany : b.threshold ≤ b.failures + 1 <;> simp [failure, hhalf, hmany]

end Breaker

/-! ## One call of `fetchTarget` -/

/-- What `attempt` came to. -/
inductive AttemptOutcome where
  | ok
  | notFound
  | throttled
  | refused
  | transient
  deriving DecidableEq, Repr

/-- How `fetchTarget` returned. -/
inductive FetchResult where
  | response
  | notFound
  | breakerOpen
  | cancelled
  | limiter
  | refused
  | breakerOpened
  | exhausted
  deriving DecidableEq, Repr

inductive FetchPhase where
  | idle
  /-- The first `Allow` comes next. -/
  | admitting
  | pausing (attempt : Nat)
  /-- In `limiter.Wait`. -/
  | limiting (attempt : Nat)
  | attempting (attempt : Nat)
  /-- `Success` comes next. -/
  | succeeding (result : FetchResult)
  /-- `Failure` comes next. -/
  | failing (attempt : Nat) (retryable : Bool)
  /-- `Allow` comes next, after a failure. -/
  | readmitting (attempt : Nat)
  | returned (result : FetchResult)
  deriving DecidableEq, Repr

def FetchPhase.inProgress : FetchPhase → Bool
  | idle | returned _ => false
  | _ => true

def FetchPhase.admitted : FetchPhase → Bool
  | pausing _ | limiting _ | attempting _ | succeeding _ | failing .. => true
  | _ => false

/-- `Upstream`, as far as its retries go. -/
structure RetryingUpstream where
  retries : Nat
  positive : 0 < retries
  limited : Bool

/-- One step of one call: the clock, whether the wait it is in is cut short, how an attempt ends. -/
structure FetchTick where
  call : Nat
  now : Int
  interrupted : Bool := false
  outcome : AttemptOutcome := .ok
  deriving DecidableEq, Repr

namespace RetryingUpstream

def ready (u : RetryingUpstream) (attempt : Nat) : FetchPhase :=
  if u.limited then .limiting attempt else .attempting attempt

def onward (u : RetryingUpstream) (attempt : Nat) : FetchPhase :=
  if attempt + 1 < u.retries then .pausing (attempt + 1) else .returned .exhausted

/-- `fetchTarget`, one step. -/
def next (u : RetryingUpstream) (op : FetchTick) (b : Breaker) : FetchPhase → Breaker × FetchPhase
  | .idle | .returned _ => (b, .admitting)
  | .admitting =>
    match b.allow op.now with
    | (true, after) => (after, u.ready 0)
    | (false, after) => (after, .returned .breakerOpen)
  | .pausing attempt =>
    if op.interrupted then (b, .returned .cancelled) else (b, u.ready attempt)
  | .limiting attempt =>
    if op.interrupted then (b, .returned .limiter) else (b, .attempting attempt)
  | .attempting attempt =>
    match op.outcome with
    | .ok => (b, .succeeding .response)
    | .notFound => (b, .succeeding .notFound)
    -- the upstream is up: neither a success nor a failure
    | .throttled => (b, u.onward attempt)
    | .refused => (b, .failing attempt false)
    | .transient => (b, .failing attempt true)
  | .succeeding result => (b.success, .returned result)
  | .failing attempt retryable =>
    (b.failure op.now, if retryable then .readmitting attempt else .returned .refused)
  | .readmitting attempt =>
    match b.allow op.now with
    | (true, after) => (after, u.onward attempt)
    | (false, after) => (after, .returned .breakerOpened)

end RetryingUpstream

/-! ## Many calls -/

structure Fetching where
  breaker : Breaker
  calls : List FetchPhase
  deriving DecidableEq, Repr

namespace Fetching

def step (u : RetryingUpstream) (op : FetchTick) (s : Fetching) : Fetching :=
  match s.calls[op.call]? with
  | none => s
  | some phase =>
    let (after, next) := u.next op s.breaker phase
    { breaker := after, calls := s.calls.set op.call next }

def Quiet (s : Fetching) : Prop :=
  ∀ phase ∈ s.calls, phase.inProgress = false
  deriving Decidable

/-- A quiet breaker waits for no probe, and admits a call once its cooldown is over. -/
def NotStuck (s : Fetching) : Prop :=
  s.Quiet → ¬ (s.breaker.state = .halfOpen ∧ s.breaker.probeInFlight = true) ∧
    ∀ now, s.breaker.cooldown ≤ now - s.breaker.openedAt → (s.breaker.allow now).1 = true

def OtherAdmitted (s : Fetching) (i : Nat) : Prop :=
  ∃ j < s.calls.length, j ≠ i ∧ (s.calls[j]?.any FetchPhase.admitted) = true

instance (s : Fetching) (i : Nat) : Decidable (s.OtherAdmitted i) :=
  inferInstanceAs (Decidable (∃ j < _, _))

end Fetching

/--
The step makes a call return without a word to the breaker: its wait before a
retry or for the rate limiter is cut short, or its last attempt is throttled.
-/
def RetryingUpstream.GivesUp (u : RetryingUpstream) (op : FetchTick) : FetchPhase → Prop
  | .pausing _ | .limiting _ => op.interrupted = true
  | .attempting attempt => op.outcome = .throttled ∧ u.retries ≤ attempt + 1
  | _ => False

instance (u : RetryingUpstream) (op : FetchTick) : DecidablePred (u.GivesUp op)
  | .pausing _ | .limiting _ => inferInstanceAs (Decidable (_ = _))
  | .attempting _ => inferInstanceAs (Decidable (_ ∧ _))
  | .idle | .admitting | .succeeding _ | .failing .. | .readmitting _ | .returned _ =>
    inferInstanceAs (Decidable False)

def RetryingUpstream.AsksInVain (u : RetryingUpstream) : FetchPhase → Prop
  | .readmitting attempt => u.retries ≤ attempt + 1
  | _ => False

instance (u : RetryingUpstream) : DecidablePred u.AsksInVain
  | .readmitting _ => inferInstanceAs (Decidable (_ ≤ _))
  | .idle | .admitting | .pausing _ | .limiting _ | .attempting _ | .succeeding _ | .failing ..
  | .returned _ => inferInstanceAs (Decidable False)

/--
No call gives up on a half-open breaker, and none becomes the probe after its last
attempt, unless another admitted call is under way.
-/
def ReportsBack (u : RetryingUpstream) (s : Fetching) (op : FetchTick) : Prop :=
  ∀ phase ∈ s.calls[op.call]?,
    (u.GivesUp op phase ∧ s.breaker.state = .halfOpen) ∨
      (u.AsksInVain phase ∧ s.breaker.Due op.now) →
    s.OtherAdmitted op.call

instance (u : RetryingUpstream) (s : Fetching) (op : FetchTick) : Decidable (ReportsBack u s op) :=
  Option.decidableForallMem _

/-! ## A half-open breaker has a call that will report back -/

/-- Half-open means that a probe is in flight and that an admitted call is under way. -/
structure Probed (s : Fetching) : Prop where
  flagged : s.breaker.state = .halfOpen → s.breaker.probeInFlight = true
  carried : s.breaker.state = .halfOpen → ∃ j : Nat, s.calls[j]?.any FetchPhase.admitted = true

variable {after : Breaker}

namespace Probed

variable {s : Fetching} {i : Nat} {phase : FetchPhase}

theorem of_state_ne (hstate : after.state ≠ .halfOpen) (calls : List FetchPhase) :
    Probed ⟨after, calls⟩ where
  flagged hhalf := absurd hhalf hstate
  carried hhalf := absurd hhalf hstate

theorem of_admitted (hflag : after.state = .halfOpen → after.probeInFlight = true)
    (hphase : s.calls[i]? = some phase) {next : FetchPhase} (hnext : next.admitted = true) :
    Probed ⟨after, s.calls.set i next⟩ where
  flagged := hflag
  carried _ := by
    have hi : i < s.calls.length := (List.getElem?_eq_some_iff.mp hphase).1
    exact ⟨i, by simp [hi, hnext]⟩

theorem of_other (probed : Probed s) (hother : s.breaker.state = .halfOpen → s.OtherAdmitted i)
    (next : FetchPhase) : Probed ⟨s.breaker, s.calls.set i next⟩ where
  flagged := probed.flagged
  carried hhalf := by
    obtain ⟨j, -, hne, hadmitted⟩ := hother hhalf
    exact ⟨j, by simpa [List.getElem?_set_ne (Ne.symm hne)] using hadmitted⟩

theorem otherAdmitted (probed : Probed s) (hphase : s.calls[i]? = some phase)
    (hout : phase.admitted = false) (hhalf : s.breaker.state = .halfOpen) : s.OtherAdmitted i := by
  obtain ⟨j, hadmitted⟩ := probed.carried hhalf
  have hj : j < s.calls.length := by
    by_contra hge
    simp [List.getElem?_eq_none (Nat.le_of_not_lt hge)] at hadmitted
  refine ⟨j, hj, ?_, hadmitted⟩
  rintro rfl
  simp [hphase, hout] at hadmitted

/-- After `Allow` by a call that was not admitted. -/
theorem allow (probed : Probed s) (hphase : s.calls[i]? = some phase)
    (hout : phase.admitted = false) (now : Int) (admitted refused : FetchPhase)
    (hdue : s.breaker.Due now → admitted.admitted = true ∨ s.OtherAdmitted i) :
    let (after, next) := match s.breaker.allow now with
      | (true, after) => (after, admitted)
      | (false, after) => (after, refused)
    Probed ⟨after, s.calls.set i next⟩ := by
  rcases Breaker.allow_spec probed.flagged now with hno | ⟨hclosed, hyes⟩ | ⟨hprobe, hyes⟩
  · rw [hno]
    exact probed.of_other (probed.otherAdmitted hphase hout) refused
  · rw [hyes]
    exact of_state_ne (by simp [hclosed]) _
  · rw [hyes]
    rcases hdue hprobe with hadmitted | ⟨j, -, hne, hadmitted⟩
    · exact of_admitted (fun _ => rfl) hphase hadmitted
    · exact ⟨fun _ => rfl, fun _ =>
        ⟨j, by simpa [List.getElem?_set_ne (Ne.symm hne)] using hadmitted⟩⟩

end Probed

theorem RetryingUpstream.ready_admitted (u : RetryingUpstream) (attempt : Nat) :
    (u.ready attempt).admitted = true := by
  by_cases hlimited : u.limited = true <;>
    simp [RetryingUpstream.ready, hlimited, FetchPhase.admitted]

theorem RetryingUpstream.onward_admitted (u : RetryingUpstream) (attempt : Nat) :
    (u.onward attempt).admitted = true ∨ u.retries ≤ attempt + 1 := by
  by_cases hmore : attempt + 1 < u.retries
  · exact .inl (by simp [RetryingUpstream.onward, hmore, FetchPhase.admitted])
  · exact .inr (Nat.le_of_not_lt hmore)

theorem Probed.step {u : RetryingUpstream} {s : Fetching} {op : FetchTick} (probed : Probed s)
    (hreports : ReportsBack u s op) : Probed (s.step u op) := by
  unfold Fetching.step
  cases hphase : s.calls[op.call]? with
  | none => exact probed
  | some phase =>
    have hgives := fun hgive hhalf => hreports phase hphase (.inl ⟨hgive, hhalf⟩)
    have hasks := fun hask hdue => hreports phase hphase (.inr ⟨hask, hdue⟩)
    cases phase with
    | idle | returned result =>
      exact probed.of_other (probed.otherAdmitted hphase rfl) _
    | admitting =>
      exact probed.allow hphase rfl op.now (u.ready 0) (.returned .breakerOpen)
        (fun _ => .inl (u.ready_admitted 0))
    | pausing attempt | limiting attempt =>
      by_cases hstop : op.interrupted = true
      · simp only [RetryingUpstream.next, hstop, if_true]
        exact probed.of_other (hgives hstop) _
      · simp only [RetryingUpstream.next, hstop]
        exact of_admitted probed.flagged hphase (by first | exact u.ready_admitted _ | rfl)
    | attempting attempt =>
      cases houtcome : op.outcome with
      | ok | notFound | refused | transient =>
        simp only [RetryingUpstream.next, houtcome]
        exact of_admitted probed.flagged hphase rfl
      | throttled =>
        simp only [RetryingUpstream.next, houtcome]
        rcases u.onward_admitted attempt with hadmitted | hlast
        · exact of_admitted probed.flagged hphase hadmitted
        · exact probed.of_other (hgives ⟨houtcome, hlast⟩) _
    | succeeding result => exact of_state_ne (by simp) _
    | failing attempt retryable => exact of_state_ne (s.breaker.failure_state_ne op.now) _
    | readmitting attempt =>
      exact probed.allow hphase rfl op.now (u.onward attempt) (.returned .breakerOpened)
        (fun hdue => (u.onward_admitted attempt).imp_right fun hlast => hasks hlast hdue)

theorem Probed.notStuck {s : Fetching} (probed : Probed s) : s.NotStuck := by
  intro hquiet
  have hstate : s.breaker.state ≠ .halfOpen := by
    intro hhalf
    obtain ⟨j, hadmitted⟩ := probed.carried hhalf
    cases hphase : s.calls[j]? with
    | none => simp [hphase] at hadmitted
    | some phase =>
      have hidle := hquiet phase (List.mem_of_getElem? hphase)
      cases phase <;> simp_all [FetchPhase.admitted, FetchPhase.inProgress]
  constructor
  · exact fun hboth => hstate hboth.1
  · intro now hcool
    cases hcircuit : s.breaker.state with
    | closed => simp [Breaker.allow, hcircuit]
    | halfOpen => exact absurd hcircuit hstate
    | opened => simp [Breaker.allow, hcircuit, hcool]

/-! ## Whole runs -/

def Fetching.start (threshold cooldown : Int) (callers : Nat) : Fetching where
  breaker := newBreaker threshold cooldown
  calls := List.replicate callers .idle

/-- A run in which calls report back never leaves the breaker stuck. -/
theorem breaker_never_stuck (u : RetryingUpstream) (threshold cooldown : Int) (callers : Nat)
    (ops : List FetchTick)
    (hreports : Meets (Fetching.step u) (ReportsBack u) ops
      (Fetching.start threshold cooldown callers)) :
    (runAll (Fetching.step u) ops (Fetching.start threshold cooldown callers)).NotStuck := by
  have hstart : Probed (Fetching.start threshold cooldown callers) :=
    Probed.of_state_ne (by simp [newBreaker]) _
  exact (invariant_runAll (fun s op probed hop => Probed.step probed hop) hstart hreports).notStuck

def threeAttempts : RetryingUpstream := ⟨3, by decide, false⟩

def ticks (call : Nat) (now : Int) (outcomes : List AttemptOutcome) : List FetchTick :=
  outcomes.map fun outcome => { call := call, now := now, outcome := outcome }

def openedThenProbed (probe : List AttemptOutcome) : List FetchTick :=
  ticks 0 0 (List.replicate 13 .transient) ++ ticks 1 0 (List.replicate 9 .transient) ++
    ticks 2 15000000000 probe

/-- The probe is answered. -/
theorem breaker_never_stuck_answered :
    (runAll (Fetching.step threeAttempts) (openedThenProbed (List.replicate 4 .ok))
      (Fetching.start 0 0 3)).NotStuck :=
  breaker_never_stuck threeAttempts 0 0 3 (openedThenProbed (List.replicate 4 .ok))
    (by decide +kernel)

/-- A probe that is throttled on every attempt leaves the breaker half-open for good. -/
theorem throttled_probe_sticks :
    let s := runAll (Fetching.step threeAttempts)
      (openedThenProbed (List.replicate 7 .throttled)) (Fetching.start 0 0 3)
    s.Quiet ∧ s.breaker.state = .halfOpen ∧ s.breaker.probeInFlight = true ∧
      ∀ now, (s.breaker.allow now).1 = false := by
  have hend : runAll (Fetching.step threeAttempts)
      (openedThenProbed (List.replicate 7 .throttled)) (Fetching.start 0 0 3) =
      { breaker :=
          { threshold := 5, cooldown := 15000000000, failures := 5, state := .halfOpen
            probeInFlight := true }
        calls := [.returned .exhausted, .returned .breakerOpened, .returned .exhausted] } := by
    decide +kernel
  rw [hend]
  exact ⟨by decide, rfl, rfl, fun _ => rfl⟩

/-! ## The probe of a half-open breaker -/

/-- The breaker and the requests it admitted, numbered as they were admitted. -/
structure Admissions where
  breaker : Breaker
  issued : Nat := 0
  /-- Admitted, with no outcome reported yet. -/
  pending : List Nat := []
  /-- Admitted since the breaker became half-open. -/
  probes : List Nat := []
  deriving DecidableEq, Repr

inductive BreakerCall where
  | allow (now : Int)
  | success (request : Nat)
  | failure (request : Nat) (now : Int)
  deriving DecidableEq, Repr

def BreakerCall.reporter : BreakerCall → Option Nat
  | allow _ => none
  | success request | failure request _ => some request

variable (op : BreakerCall)

namespace Admissions

/-- An admission has one outcome at most; a second report is none. -/
def report (s : Admissions) (request : Nat) (after : Breaker) : Admissions :=
  if request ∈ s.pending then
    { s with breaker := after, pending := s.pending.erase request, probes := [] }
  else s

def step : BreakerCall → Admissions → Admissions
  | .allow now, s =>
    match s.breaker.allow now with
    | (true, after) =>
      { breaker := after
        issued := s.issued + 1
        pending := s.issued :: s.pending
        probes := if after.state = .halfOpen then s.issued :: s.probes else [] }
    | (false, after) => { s with breaker := after }
  | .success request, s => s.report request s.breaker.success
  | .failure request now, s => s.report request (s.breaker.failure now)

/-- What a call may do to a half-open breaker and to a cooldown. -/
structure SingleProbe (s : Admissions) (op : BreakerCall) : Prop where
  single : (step op s).breaker.state = .halfOpen → (step op s).probes.length ≤ 1
  leaves : s.breaker.state = .halfOpen → (step op s).breaker.state ≠ .halfOpen →
    ∃ probe ∈ s.probes, (op = .success probe ∧ (step op s).breaker.state = .closed) ∨
      ∃ now, op = .failure probe now ∧ (step op s).breaker.state = .opened
  /-- On a breaker that is not closed, for the outcome of a request from before it opened. -/
  earlier : ∀ request, op.reporter = some request → request ∈ s.pending →
    s.breaker.state ≠ .closed → request ∉ s.probes →
      (step op s).breaker.state = s.breaker.state ∧
        (step op s).breaker.openedAt = s.breaker.openedAt ∧
        (step op s).breaker.probeInFlight = s.breaker.probeInFlight

/-- Until the breaker is closed again nobody reports but the probe, or a failure at the moment
the breaker opened. -/
def ProbeReports (s : Admissions) (op : BreakerCall) : Prop :=
  ∀ request, op.reporter = some request → request ∈ s.pending → s.breaker.state ≠ .closed →
    request ∈ s.probes ∨
      s.breaker.state = .opened ∧ op = .failure request s.breaker.openedAt

/-- What holds of the breaker and its probes whoever reports. -/
structure Counted (s : Admissions) : Prop where
  probing : s.breaker.state = .halfOpen → s.breaker.probeInFlight = true ∧ s.probes.length = 1
  idle : s.breaker.state ≠ .halfOpen → s.probes = []
  failed : s.breaker.state ≠ .closed → s.breaker.threshold ≤ s.breaker.failures

variable {s : Admissions}

variable (counted : Counted s)

include counted

theorem Counted.reported (request : Nat) (hstate : after.state ≠ .halfOpen)
    (hfailed : after.state ≠ .closed → after.threshold ≤ after.failures) :
    Counted (s.report request after) := by
  unfold Admissions.report
  split
  · exact ⟨fun hhalf => absurd hhalf hstate, fun _ => rfl, hfailed⟩
  · exact counted

theorem Counted.kept : Counted (step op s) := by
  cases op with
  | allow now =>
    rcases Breaker.allow_spec (fun hhalf => (counted.probing hhalf).1) now with
      hno | ⟨hclosed, hyes⟩ | ⟨hprobe, hyes⟩
    · simp only [Admissions.step, hno]
      exact counted
    · simp only [Admissions.step, hyes]
      refine ⟨fun hhalf => ?_, fun _ => if_neg (by simp [hclosed]), fun hne => absurd hclosed hne⟩
      simp [hclosed] at hhalf
    · simp only [Admissions.step, hyes]
      refine ⟨fun _ => ⟨rfl, ?_⟩, fun hne => absurd rfl hne, fun _ => counted.failed ?_⟩
      · simp [counted.idle (by simp [hprobe.1])]
      · simp [hprobe.1]
  | success request => exact counted.reported request (by simp) (fun hne => absurd rfl hne)
  | failure request now =>
    refine counted.reported request (s.breaker.failure_state_ne now) ?_
    unfold Breaker.failure
    split
    · next hhalf => exact fun _ => counted.failed (by simp [hhalf])
    · split
      · next hmany => exact fun _ => hmany
      · exact fun hopen => Int.le_add_one (counted.failed hopen)

theorem Counted.single (hhalf : s.breaker.state = .halfOpen) : s.probes.length ≤ 1 :=
  Nat.le_of_eq (counted.probing hhalf).2

/-- A report of somebody who was not admitted is none. -/
theorem Counted.not_pending {request : Nat} (hreporter : op.reporter = some request)
    (hpending : request ∉ s.pending) (hstep : step op s = s) :
    SingleProbe s op ↔ ProbeReports s op := by
  have hnobody : ∀ other, op.reporter = some other → other ∉ s.pending := by
    intro other hother
    rw [hreporter, Option.some.injEq] at hother
    exact hother ▸ hpending
  refine iff_of_true ⟨fun hhalf => ?_, fun hhalf hleft => absurd hhalf (hstep ▸ hleft), ?_⟩ ?_
  · rw [hstep] at hhalf ⊢
    exact counted.single hhalf
  · exact fun other hother hmem => absurd hmem (hnobody other hother)
  · exact fun other hother hmem => absurd hmem (hnobody other hother)

/-- A call does what it may exactly if the condition on outcomes holds. -/
theorem Counted.singleProbe_iff : SingleProbe s op ↔ ProbeReports s op := by
  have hsingle := (counted.kept op).single
  cases op with
  | allow now =>
    refine iff_of_true ⟨hsingle, fun hhalf hleft => absurd ?_ hleft, nofun⟩ nofun
    simp [step, Breaker.allow, hhalf, (counted.probing hhalf).1]
  | success request =>
    by_cases hpending : request ∈ s.pending
    · constructor
      · rintro hcall _ ⟨⟩ - hstate
        by_contra hprobe
        have hsame := (hcall.earlier request rfl hpending hstate (hprobe ∘ .inl)).1
        simp only [step, report, hpending, if_true, Breaker.success_state] at hsame
        exact hstate hsame.symm
      · intro hreports
        have hprobe : s.breaker.state ≠ .closed → request ∈ s.probes := fun hstate =>
          (hreports request rfl hpending hstate).resolve_right (by simp)
        refine ⟨hsingle, fun hhalf _ => ⟨request, hprobe (by simp [hhalf]), .inl ⟨rfl, ?_⟩⟩, ?_⟩
        · simp [step, report, hpending]
        · rintro _ ⟨⟩ - hstate hnot
          exact absurd (hprobe hstate) hnot
    · exact counted.not_pending _ rfl hpending (by simp [step, report, hpending])
  | failure request now =>
    by_cases hpending : request ∈ s.pending
    · have hafter : (step (.failure request now) s).breaker = s.breaker.failure now := by
        simp [step, report, hpending]
      have hmany := fun hstate => Int.le_add_one (counted.failed hstate)
      constructor
      · rintro hcall _ ⟨⟩ - hstate
        by_contra hprobe
        obtain ⟨hsame, hsince, -⟩ := hcall.earlier request rfl hpending hstate (hprobe ∘ .inl)
        rw [hafter] at hsame hsince
        have hopened : s.breaker.state = .opened := by
          cases hcircuit : s.breaker.state with
          | opened => rfl
          | closed => exact absurd hcircuit hstate
          | halfOpen => exact absurd (hsame.trans hcircuit) (s.breaker.failure_state_ne now)
        simp only [Breaker.failure, hopened, hmany hstate, reduceCtorEq,
          if_false, if_true] at hsince
        exact hprobe (.inr ⟨hopened, by rw [hsince]⟩)
      · intro hreports
        refine ⟨hsingle, fun hhalf _ => ⟨request, ?_, .inr ⟨now, rfl, ?_⟩⟩, ?_⟩
        · exact (hreports request rfl hpending (by simp [hhalf])).resolve_right (by simp [hhalf])
        · simp [hafter, Breaker.failure, hhalf]
        · rintro _ ⟨⟩ - hstate hnot
          obtain ⟨hopened, hnow⟩ := (hreports request rfl hpending hstate).resolve_left hnot
          injection hnow with _ hnow
          subst hnow
          simp [hafter, Breaker.failure, hopened, hmany hstate]
    · exact counted.not_pending _ rfl hpending (by simp [step, report, hpending])

end Admissions

/-- Whoever reports, a breaker that is not closed has counted its threshold of failures, and a
half-open one has admitted one probe. -/
theorem breaker_counted (threshold cooldown : Int) (ops : List BreakerCall) :
    (runAll Admissions.step ops { breaker := newBreaker threshold cooldown }).Counted :=
  invariant_runAll (fun _ op counted _ => counted.kept op)
    ⟨by simp [newBreaker], fun _ => rfl, by simp [newBreaker]⟩
    (meets_of_forall (fun _ _ _ => trivial) _)

/-- Along a run the breaker has a single probe, which alone ends the half-open state, exactly if
until it closes nobody else reports. -/
theorem single_probe_iff (threshold cooldown : Int) (ops : List BreakerCall) :
    Meets Admissions.step Admissions.SingleProbe ops { breaker := newBreaker threshold cooldown } ↔
      Meets Admissions.step Admissions.ProbeReports ops
        { breaker := newBreaker threshold cooldown } :=
  meets_iff_of_invariant (P := Admissions.Counted) (fun _ op counted => counted.kept op)
    (fun _ op counted => counted.singleProbe_iff op)
    ⟨by simp [newBreaker], fun _ => rfl, by simp [newBreaker]⟩

/-- Requests 0 and 1 are admitted, the failure of 0 opens the breaker, and 2 is the probe. -/
def probedTwice : Admissions :=
  runAll Admissions.step [.allow 0, .allow 0, .failure 0 0, .allow 10]
    { breaker := newBreaker 1 10 }

/-- The success of an old request closes the half-open breaker. -/
theorem old_outcome_ends_probe :
    probedTwice.breaker.state = .halfOpen ∧ probedTwice.probes = [2] ∧
      (Admissions.step (.success 1) probedTwice).breaker.state = .closed ∧
      ¬ Admissions.SingleProbe probedTwice (.success 1) := by
  have hstate : probedTwice.breaker.state = .halfOpen ∧ probedTwice.probes = [2] ∧
      (Admissions.step (.success 1) probedTwice).breaker.state = .closed := by decide
  refine ⟨hstate.1, hstate.2.1, hstate.2.2, fun hcall => ?_⟩
  have hsame := (hcall.earlier 1 rfl (by decide) (by simp [hstate.1]) (by decide)).1
  rw [hstate.1, hstate.2.2] at hsame
  cases hsame

end FondacoFormal.Pipeline
