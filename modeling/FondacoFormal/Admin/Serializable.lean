import FondacoFormal.Admin.Replicas

/-!
# Edits one after the other

The stored documents are those that the edits reported as done make of each other, in the order
of the store's `Put`. The advisory lock carries the argument: what its holder read is still
stored when it writes.
-/

namespace FondacoFormal.Admin

open Library.Runs

variable {Config : Type}

/-! ## The specification -/

structure Commit.Correct (codec : Codec Config) (commit : Commit) : Prop where
  applied : codec.applied commit.request.edit commit.base = .ok (commit.next, true)
  matched : commit.request.ifMatch = "" ∨ commit.request.ifMatch = codec.version commit.base
  valid : ∃ config, codec.check commit.next = .ok config

/-- The edits lead from the first document to the last, each applied to the one before it. -/
inductive Chain (codec : Codec Config) (first : Document) : List Commit → Document → Prop where
  | start : Chain codec first [] first
  | edited {commits : List Commit} {last : Document} (commit : Commit)
      (before : Chain codec first commits last) (base : commit.base = last)
      (correct : commit.Correct codec) : Chain codec first (commits ++ [commit]) commit.next

variable {first : Document} {codec : Codec Config}

theorem Chain.eq_of_nil {last : Document} {commits : List Commit}
    (chain : Chain codec first commits last) (hnil : commits = []) : last = first := by
  cases chain with
  | start => rfl
  | edited commit before base correct =>
    exact absurd hnil (List.append_ne_nil_of_right_ne_nil _ (List.cons_ne_nil _ _))

def reloadAlone (call i : Nat) : List Step :=
  [.reload call i, .reread call true, .reswap call]

structure Serialisable (codec : Codec Config) (first : Document) (w : World Config) : Prop where
  serial : Chain codec first w.commits w.stored
  once : (w.commits.map Commit.call).Nodup
  /-- An edit that took effect is reported so, or is still under way. -/
  reported : ∀ commit ∈ w.commits, w.lock = some commit.call ∨
    w.calls commit.call = .answered commit.request (.ok (codec.version commit.next))
  succeeded : ∀ call request version, w.calls call = .answered request (.ok version) →
    ∃ commit ∈ w.commits, commit.call = call ∧ commit.request = request ∧
      codec.version commit.next = version
  failed : ∀ call request error, w.calls call = .answered request (.error error) →
    ∀ commit ∈ w.commits, commit.call ≠ call
  valid : ∃ config, codec.check w.stored = .ok config
  reload : ∀ call i, Step.free w call = true → (w.replicas i).busy = none →
    ((runAll (Step.act codec) (reloadAlone call i) w).replicas i).document = w.stored
  snapshot : ∀ i, codec.check (w.replicas i).document = .ok (w.replicas i).config

/-- Nothing has happened yet: every replica runs a valid document, not always the stored one. -/
structure World.Initial (codec : Codec Config) (w : World Config) : Prop where
  lock : w.lock = none
  calls : ∀ call, w.calls call = .idle
  commits : w.commits = []
  valid : ∃ config, codec.check w.stored = .ok config
  version : ∀ i, (w.replicas i).version = codec.version (w.replicas i).document
  snapshot : ∀ i, codec.check (w.replicas i).document = .ok (w.replicas i).config

/-- A `DELETE` finds what it removes, or the document is written as the encoder writes it. -/
def Edit.Finds (codec : Codec Config) : Edit → Document → Prop
  | .delete change, raw => ∀ next, codec.changed change raw = .ok (next, false) → next = raw
  | _, _ => True

/-- The condition on a step: an edit that is about to be stored finds its resource in the document
it replaces. -/
def FindsResource (codec : Codec Config) (w : World Config) : Step → Prop
  | .put call _ => ∀ request write, w.calls call = .putting request write →
      request.edit.Finds codec w.stored
  | _ => True

/-! ## What an edit prepares -/

variable {request : Request} {stored : Document} {write : Write Config}

/-- A prepared write is the edit applied to the stored document, and valid; it is conditional on
that document, or on what the caller asked for. -/
theorem prepareWrite_spec (hprepared : prepareWrite codec request stored = .ok write) :
    codec.applied request.edit stored = .ok (write.updated, write.reported) ∧
      codec.check write.updated = .ok write.config ∧
      (write.expected = request.ifMatch ∨
        request.ifMatch = "" ∨ request.ifMatch = codec.version stored) := by
  rw [prepareWrite] at hprepared
  split at hprepared
  · next raw hedit =>
      split at hprepared <;> cases hprepared
      next config hcheck => exact ⟨by rw [hedit]; rfl, hcheck, .inl rfl⟩
  · split at hprepared
    · cases hprepared
    · next hmatch =>
        split at hprepared
        · cases hprepared
        · next updated reported happlied =>
            split at hprepared <;> cases hprepared
            next config hcheck =>
              refine ⟨happlied, hcheck, .inr ?_⟩
              by_cases hempty : request.ifMatch = ""
              · exact .inl hempty
              · exact .inr (not_not.1 fun hother => hmatch ⟨hempty, hother⟩)

theorem Edit.Finds.same {edit : Edit} {next : Document} (finds : edit.Finds codec stored)
    (happlied : codec.applied edit stored = .ok (next, false)) : next = stored := by
  cases edit with
  | replace raw => cases happlied
  | put change =>
    rw [Codec.applied] at happlied
    cases hchanged : codec.changed change stored with
    | error message | ok made => rw [hchanged] at happlied; cases happlied
  | delete change => exact finds next happlied

/-! ## What every call may rely on -/

def Phase.Safe (codec : Codec Config) (w : World Config) (call : Nat) : Phase Config → Prop
  | .locked _ => w.lock = some call
  | .prepared request write | .comparing request write =>
    w.lock = some call ∧ prepareWrite codec request w.stored = .ok write
  | .putting request write =>
    w.lock = some call ∧ prepareWrite codec request w.stored = .ok write ∧
      (write.expected = "" ∨ write.expected = codec.version w.stored)
  | .swapping _ write => w.lock = some call ∧ codec.check write.updated = .ok write.config
  | .leaving _ _ => w.lock = some call
  | .reloaded _ raw config => codec.check raw = .ok config
  | _ => True

/-- The request of a call whose edit took effect, and the version it reports. -/
def Phase.committed (codec : Codec Config) : Phase Config → Option (Request × String)
  | .swapping request write =>
    if write.reported then some (request, codec.version write.updated) else none
  | .leaving request (.ok version) | .answered request (.ok version) => some (request, version)
  | _ => none

variable {call : Nat} {phase : Phase Config} {w w' : World Config}

theorem Phase.Safe.of_not_holder (safe : phase.Safe codec w call) (hlock : w.lock ≠ some call) :
    phase.Safe codec w' call := by
  cases phase
  case locked | leaving => exact absurd safe hlock
  case prepared | comparing | putting | swapping => exact absurd safe.1 hlock
  case reloaded => exact safe
  all_goals trivial

theorem Phase.Safe.congr (safe : phase.Safe codec w call) (hlock : w'.lock = w.lock)
    (hstored : w'.stored = w.stored) : phase.Safe codec w' call := by
  cases phase <;> simp only [Phase.Safe, hlock, hstored] at safe ⊢ <;> exact safe

structure Ordered (codec : Codec Config) (w : World Config) : Prop where
  correct : ∀ commit ∈ w.commits, commit.Correct codec
  once : (w.commits.map Commit.call).Nodup
  valid : ∃ config, codec.check w.stored = .ok config
  version : ∀ i, (w.replicas i).version = codec.version (w.replicas i).document
  snapshot : ∀ i, codec.check (w.replicas i).document = .ok (w.replicas i).config
  safe : ∀ call, (w.calls call).Safe codec w call
  committed : ∀ call request version, (w.calls call).committed codec = some (request, version) ↔
    ∃ commit ∈ w.commits, commit.call = call ∧ commit.request = request ∧
      codec.version commit.next = version

namespace Ordered

variable {codec : Codec Config} {w : World Config}

variable (ordered : Ordered codec w)

include ordered

theorem safe_at (hphase : w.calls call = phase) : phase.Safe codec w call :=
  hphase ▸ ordered.safe call

theorem committed_at {commit : Commit} (hmem : commit ∈ w.commits)
    (hphase : w.calls commit.call = phase) :
    phase.committed codec = some (commit.request, codec.version commit.next) :=
  hphase ▸ (ordered.committed _ _ _).2 ⟨commit, hmem, rfl, rfl, rfl⟩

theorem moved {old : Phase Config} (hphase : w.calls call = old) (hsafe : phase.Safe codec w call)
    (hcommitted : phase.committed codec = old.committed codec) :
    Ordered codec (w.moved call phase) := by
  refine { ordered with safe := fun other => ?_, committed := fun other request version => ?_ }
  all_goals by_cases hother : other = call
  · subst hother
    rw [World.moved_calls_self]
    exact hsafe.congr rfl rfl
  · rw [World.moved_calls_of_ne _ _ hother]
    exact (ordered.safe other).congr rfl rfl
  · subst hother
    rw [World.moved_calls_self, hcommitted, ← hphase]
    exact ordered.committed other request version
  · rw [World.moved_calls_of_ne _ _ hother]
    exact ordered.committed other request version

theorem changed (i : Nat) (replica : Replica Config)
    (hversion : replica.version = codec.version replica.document)
    (hsnapshot : codec.check replica.document = .ok replica.config) :
    Ordered codec (w.changed i replica) := by
  refine { ordered with
    version := fun j => ?_
    snapshot := fun j => ?_
    safe := fun call => (ordered.safe call).congr rfl rfl }
  all_goals by_cases hj : j = i
  · subst hj; rwa [World.changed_replicas_self]
  · rw [World.changed_replicas_of_ne _ _ hj]; exact ordered.version j
  · subst hj; rwa [World.changed_replicas_self]
  · rw [World.changed_replicas_of_ne _ _ hj]; exact ordered.snapshot j

theorem enter (i call : Nat) : Ordered codec (w.enter i call) :=
  ordered.changed i _ (ordered.version i) (ordered.snapshot i)

theorem exit (i : Nat) : Ordered codec (w.exit i) :=
  ordered.changed i _ (ordered.version i) (ordered.snapshot i)

theorem responded (response : Response) : Ordered codec (w.responded response) :=
  { ordered with safe := fun call => (ordered.safe call).congr rfl rfl }

theorem relock (lock : Option Nat)
    (hsafe : ∀ call, (w.calls call).Safe codec { w with lock := lock } call) :
    Ordered codec { w with lock := lock } :=
  { ordered with safe := hsafe }

theorem begins (hfree : Step.free w call = true) (hsafe : phase.Safe codec w call)
    (hcommitted : phase.committed codec = none) : Ordered codec (w.moved call phase) := by
  cases hphase : w.calls call <;> simp only [Step.free, hphase] at hfree
  case idle => exact ordered.moved hphase hsafe hcommitted
  all_goals cases hfree

end Ordered

/-! ## One step -/

section Steps

variable {codec : Codec Config} {w : World Config}

section

variable (ordered : Ordered codec w)

include ordered

theorem acquired_ordered (call : Nat) (works : Bool) :
    Ordered codec (Step.acquired w call works) := by
  rw [Step.acquired]
  split
  · next request hphase =>
      split
      · exact ordered.moved hphase trivial rfl
      · split
        · next hlock =>
            have hrelocked := ordered.relock (some call) fun other =>
              (ordered.safe other).of_not_holder (by rw [hlock]; exact nofun)
            exact hrelocked.moved hphase rfl rfl
        · exact ordered
  · exact ordered

theorem preparing_ordered (call : Nat) (works : Bool) :
    Ordered codec (Step.preparing codec w call works) := by
  rw [Step.preparing]
  split
  · next request hphase =>
      have hlock := ordered.safe_at hphase
      split
      · exact ordered.moved hphase hlock rfl
      · split
        · exact ordered.moved hphase hlock rfl
        · next write hprepared =>
            exact ordered.moved hphase ⟨hlock, hprepared⟩ rfl
  · exact ordered

theorem entering_ordered (call : Nat) : Ordered codec (Step.entering w call) := by
  rw [Step.entering]
  split
  · next request write hphase =>
      have hsafe := ordered.safe_at hphase
      split
      · exact (ordered.enter request.replica call).moved hphase hsafe rfl
      · exact ordered
  · exact ordered

theorem compared_ordered (call : Nat) (works : Bool) :
    Ordered codec (Step.compared codec w call works) := by
  rw [Step.compared]
  split
  · next request write hphase =>
      have hsafe := ordered.safe_at hphase
      have hgiven : ∀ error, Ordered codec
          ((w.exit request.replica).moved call (.leaving request (.error error))) := fun error =>
        (ordered.exit request.replica).moved hphase hsafe.1 rfl
      split
      · next hempty => exact ordered.moved hphase ⟨hsafe.1, hsafe.2, .inl hempty⟩ rfl
      · split
        · exact hgiven _
        · split
          · exact hgiven _
          · next hsame =>
              exact ordered.moved hphase ⟨hsafe.1, hsafe.2, .inr (not_not.1 hsame).symm⟩ rfl
  · exact ordered

end

/-- A prepared write whose comparison went well is a correct step from the stored document. -/
theorem correct_of_prepared (hprepared : prepareWrite codec request stored = .ok write)
    (hreported : write.reported = true)
    (hmatch : write.expected = "" ∨ write.expected = codec.version stored) (call : Nat) :
    Commit.Correct codec ⟨call, request, stored, write.updated⟩ := by
  obtain ⟨happlied, hcheck, hexpected⟩ := prepareWrite_spec hprepared
  rw [hreported] at happlied
  refine ⟨happlied, ?_, write.config, hcheck⟩
  rcases hexpected with hexpected | hrequest
  · rwa [← hexpected]
  · exact hrequest

section

variable (ordered : Ordered codec w)

include ordered

theorem stores_safe (hlock : w.lock = some call) (commit : Commit) (reported : Bool)
    (hsafe : phase.Safe codec (w.stores commit reported) call) (other : Nat) :
    (((w.stores commit reported).moved call phase).calls other).Safe codec
      ((w.stores commit reported).moved call phase) other := by
  by_cases hother : other = call
  · subst hother
    rw [World.moved_calls_self]
    exact hsafe.congr rfl rfl
  · rw [World.moved_calls_of_ne _ _ hother]
    refine (ordered.safe other).of_not_holder ?_
    rw [hlock]
    exact fun hsame => hother (Option.some.inj hsame).symm

/-- A `Put` of an edit that will be reported as done goes into the history. -/
theorem stores_reported_ordered (hphase : w.calls call = .putting request write)
    (hreported : write.reported = true) :
    Ordered codec ((w.stores ⟨call, request, w.stored, write.updated⟩ true).moved call
      (.swapping request write)) := by
  obtain ⟨hlock, hprepared, hmatch⟩ := ordered.safe_at hphase
  have hcheck := (prepareWrite_spec hprepared).2.1
  have hnew : ∀ commit ∈ w.commits, commit.call ≠ call := by
    rintro commit hmem rfl
    cases ordered.committed_at hmem hphase
  exact {
    correct := by
      intro commit hmem
      rcases List.mem_append.1 hmem with hold | hself
      · exact ordered.correct commit hold
      · rw [List.mem_singleton.1 hself]
        exact correct_of_prepared hprepared hreported hmatch call
    once := by
      change ((w.commits ++ [_]).map Commit.call).Nodup
      rw [List.map_append, List.nodup_append]
      refine ⟨ordered.once, List.pairwise_singleton _ _, ?_⟩
      intro other hother self hself
      obtain ⟨commit, hmem, rfl⟩ := List.mem_map.1 hother
      rw [List.mem_singleton.1 hself]
      exact hnew commit hmem
    valid := ⟨write.config, hcheck⟩
    version := ordered.version
    snapshot := ordered.snapshot
    safe := stores_safe ordered hlock _ true ⟨hlock, hcheck⟩
    committed := by
      intro other request' version
      change _ ↔ ∃ commit ∈ w.commits ++ [_], _
      by_cases hother : other = call
      · subst hother
        rw [World.moved_calls_self, Phase.committed, if_pos hreported]
        constructor
        · rintro ⟨⟩
          exact ⟨_, List.mem_append_right _ (List.mem_singleton_self _), rfl, rfl, rfl⟩
        · rintro ⟨commit, hmem, hcall, rfl, rfl⟩
          rcases List.mem_append.1 hmem with hold | hself
          · exact absurd hcall (hnew commit hold)
          · rw [List.mem_singleton.1 hself]
      · rw [World.moved_calls_of_ne _ _ hother]
        refine (ordered.committed other request' version).trans ?_
        constructor
        · rintro ⟨commit, hmem, hrest⟩
          exact ⟨commit, List.mem_append_left _ hmem, hrest⟩
        · rintro ⟨commit, hmem, hcall, hrest⟩
          rcases List.mem_append.1 hmem with hold | hself
          · exact ⟨commit, hold, hcall, hrest⟩
          · rw [List.mem_singleton.1 hself] at hcall
            exact absurd hcall.symm hother }

/-- A `Put` of an edit that will not be reported as done leaves the history alone. -/
theorem stores_silent_ordered (hphase : w.calls call = .putting request write)
    (hreported : write.reported = false) :
    Ordered codec ((w.stores ⟨call, request, w.stored, write.updated⟩ false).moved call
      (.swapping request write)) := by
  obtain ⟨hlock, hprepared, -⟩ := ordered.safe_at hphase
  have hcheck := (prepareWrite_spec hprepared).2.1
  refine { ordered with
    valid := ⟨write.config, hcheck⟩
    safe := stores_safe ordered hlock _ false ⟨hlock, hcheck⟩
    committed := fun other request' version => ?_ }
  have hcommitted := ordered.committed other request' version
  by_cases hother : other = call
  · subst hother
    rw [World.moved_calls_self, Phase.committed, hreported]
    rwa [hphase] at hcommitted
  · rwa [World.moved_calls_of_ne _ _ hother]

theorem written_ordered (call : Nat) (works : Bool) :
    Ordered codec (Step.written w call works) := by
  rw [Step.written]
  split
  · next request write hphase =>
      have hsafe := ordered.safe_at hphase
      split
      · exact (ordered.exit request.replica).moved hphase hsafe.1 rfl
      · cases hreported : write.reported with
        | true => exact stores_reported_ordered ordered hphase hreported
        | false => exact stores_silent_ordered ordered hphase hreported
  · exact ordered

theorem swapped_ordered (call : Nat) : Ordered codec (Step.swapped codec w call) := by
  rw [Step.swapped]
  split
  · next request write hphase =>
      have hsafe := ordered.safe_at hphase
      refine (ordered.changed request.replica _ rfl hsafe.2).moved hphase hsafe.1 ?_
      rw [Write.result, Phase.committed.eq_def, Phase.committed]
      cases write.reported <;> rfl
  · exact ordered

theorem left_ordered (call : Nat) : Ordered codec (Step.left w call) := by
  rw [Step.left]
  split
  · next request result hphase =>
      have hlock := ordered.safe_at hphase
      have hmoved : Ordered codec (w.moved call (.answered request result)) :=
        ordered.moved hphase trivial (by cases result <;> rfl)
      refine hmoved.relock none fun other => ?_
      by_cases hother : other = call
      · subst hother
        rw [World.moved_calls_self]
        trivial
      · refine (hmoved.safe other).of_not_holder ?_
        change w.lock ≠ some other
        rw [hlock]
        exact fun hsame => hother (Option.some.inj hsame).symm
  · exact ordered

theorem rereading_ordered (call : Nat) (works : Bool) :
    Ordered codec (Step.rereading codec w call works) := by
  rw [Step.rereading]
  split
  · next i hphase =>
      have hgiven : Ordered codec ((w.exit i).moved call .idle) :=
        (ordered.exit i).moved hphase trivial rfl
      split
      · exact hgiven
      · split
        · exact hgiven
        · split
          · exact hgiven
          · next config hcheck => exact ordered.moved hphase hcheck rfl
  · exact ordered

theorem reswapped_ordered (call : Nat) : Ordered codec (Step.reswapped codec w call) := by
  rw [Step.reswapped]
  split
  · next i raw config hphase =>
      have hsafe := ordered.safe_at hphase
      exact (ordered.changed i ⟨codec.version raw, config, raw, none⟩ rfl hsafe).moved hphase
        trivial rfl
  · exact ordered

theorem getting_ordered (hfree : Step.free w call = true) (i : Nat) (kind : GetKind) :
    Ordered codec (Step.getting codec w call i kind) := by
  cases kind with
  | contentFirst => exact ordered.begins hfree trivial rfl
  | versionFirst =>
    rw [Step.getting]
    split
    · exact ordered.begins hfree trivial rfl
    · exact ordered
  | whole => exact ordered.responded _

theorem got_ordered (call : Nat) : Ordered codec (Step.got w call) := by
  rw [Step.got]
  split
  · next i config document hphase =>
      split
      · exact (ordered.responded _).moved hphase trivial rfl
      · exact ordered
  · next i version hphase =>
      exact (ordered.responded _).moved hphase trivial rfl
  · exact ordered

theorem act_ordered (step : Step) : Ordered codec (step.act codec w) := by
  cases step with
  | submit call request =>
    rw [Step.act]
    split
    · next hfree => exact ordered.begins hfree trivial rfl
    · exact ordered
  | acquire call works => exact acquired_ordered ordered call works
  | prepare call works => exact preparing_ordered ordered call works
  | enter call => exact entering_ordered ordered call
  | compare call works => exact compared_ordered ordered call works
  | put call works => exact written_ordered ordered call works
  | swap call => exact swapped_ordered ordered call
  | leave call => exact left_ordered ordered call
  | reload call i =>
    rw [Step.act]
    split
    · next hfree => exact (ordered.enter i call).begins hfree.1 trivial rfl
    · exact ordered
  | reread call works => exact rereading_ordered ordered call works
  | reswap call => exact reswapped_ordered ordered call
  | get call i kind =>
    rw [Step.act]
    split
    · next hfree => exact getting_ordered ordered hfree i kind
    · exact ordered
  | finishGet call => exact got_ordered ordered call

end

/-! ## The chain -/

/-- Only a `Put` changes the stored document or the history. -/
theorem act_frame (codec : Codec Config) (w : World Config) (step : Step)
    (hstep : ∀ call works, step ≠ .put call works) :
    (step.act codec w).commits = w.commits ∧ (step.act codec w).stored = w.stored := by
  cases step with
  | put call works => exact absurd rfl (hstep call works)
  | get call i kind =>
    rw [Step.act]
    split
    · cases kind <;> rw [Step.getting] <;> (try split) <;> exact ⟨rfl, rfl⟩
    · exact ⟨rfl, rfl⟩
  | submit | acquire | prepare | enter | compare | swap | leave | reload | reread | reswap
  | finishGet =>
    simp only [Step.act, Step.acquired, Step.preparing, Step.entering, Step.compared,
      Step.swapped, Step.left, Step.rereading, Step.reswapped, Step.got]
    (repeat' split) <;> exact ⟨rfl, rfl⟩

/-- A `Put` of an edit that finds its resource extends the chain, or stores what is stored. -/
theorem written_chain (ordered : Ordered codec w) (chain : Chain codec first w.commits w.stored)
    {works : Bool} (hfinds : FindsResource codec w (.put call works)) :
    Chain codec first (Step.written w call works).commits (Step.written w call works).stored := by
  rw [Step.written]
  split
  · next request write hphase =>
      obtain ⟨-, hprepared, hmatch⟩ := ordered.safe_at hphase
      split
      · exact chain
      · cases hreported : write.reported with
        | true => exact .edited _ chain rfl (correct_of_prepared hprepared hreported hmatch call)
        | false =>
          have happlied := (prepareWrite_spec hprepared).1
          rw [hreported] at happlied
          have hsame := (hfinds request write hphase).same happlied
          change Chain codec first w.commits write.updated
          rwa [hsame]
  · exact chain

theorem act_chain (ordered : Ordered codec w) (chain : Chain codec first w.commits w.stored)
    {step : Step} (hfinds : FindsResource codec w step) :
    Chain codec first (step.act codec w).commits (step.act codec w).stored := by
  by_cases hput : ∃ call works, step = .put call works
  · obtain ⟨call, works, rfl⟩ := hput
    exact written_chain ordered chain hfinds
  · obtain ⟨hcommits, hstored⟩ := act_frame codec w step
      fun call works hstep => hput ⟨call, works, hstep⟩
    rwa [hcommits, hstored]

/-! ## Whole runs -/

theorem World.Initial.ordered (initial : w.Initial codec) : Ordered codec w where
  correct := fun commit hmem => by
    rw [initial.commits] at hmem
    exact absurd hmem List.not_mem_nil
  once := by rw [initial.commits]; exact List.nodup_nil
  valid := initial.valid
  version := initial.version
  snapshot := initial.snapshot
  safe := fun call => by rw [initial.calls call]; trivial
  committed := fun call request version => by
    rw [initial.calls call, initial.commits]
    constructor
    · exact nofun
    · rintro ⟨commit, hmem, -⟩
      exact absurd hmem List.not_mem_nil

/-- A reload alone brings a replica to the stored document: a version names one document, and what
is stored is valid. -/
theorem reloadAlone_document (ordered : Ordered codec w) {i : Nat} (hfree : Step.free w call = true)
    (hbusy : (w.replicas i).busy = none) :
    ((runAll (Step.act codec) (reloadAlone call i) w).replicas i).document = w.stored := by
  obtain ⟨config, hcheck⟩ := ordered.valid
  have hreload : Step.act codec (.reload call i) w =
      (w.enter i call).moved call (.reloading i) := by
    rw [Step.act, if_pos ⟨hfree, hbusy⟩]
  rw [reloadAlone, runAll, hreload]
  generalize hreading : (w.enter i call).moved call (.reloading i) = reading
  have hphase : reading.calls call = .reloading i := by rw [← hreading, World.moved_calls_self]
  have hstored : reading.stored = w.stored := by rw [← hreading]; rfl
  have hreplica : reading.replicas i = { w.replicas i with busy := some call } := by
    rw [← hreading]; exact World.changed_replicas_self ..
  simp only [runAll, Step.act, Step.rereading, hphase, hstored, hreplica, hcheck]
  by_cases hversion : codec.version w.stored = (w.replicas i).version
  · -- The version is the one in use, and so is the document.
    have hsame : w.stored = (w.replicas i).document :=
      codec.version_injective (hversion.trans (ordered.version i))
    simp [hversion, Step.reswapped, World.exit, World.moved, World.changed, hreplica, ← hsame]
  · simp [hversion, Step.reswapped, World.moved, World.changed]

theorem Ordered.serialisable (ordered : Ordered codec w)
    (chain : Chain codec first w.commits w.stored) : Serialisable codec first w where
  serial := chain
  once := ordered.once
  reported := fun commit hmem => by
    have hsafe := ordered.safe commit.call
    cases hphase : w.calls commit.call with
    | swapping request write => rw [hphase] at hsafe; exact .inl hsafe.1
    | leaving request result => rw [hphase] at hsafe; exact .inl hsafe
    | answered request result =>
      have hcommitted := ordered.committed_at hmem hphase
      cases result with
      | error error => cases hcommitted
      | ok version => cases hcommitted; exact .inr rfl
    | _ => cases ordered.committed_at hmem hphase
  succeeded := fun call request version hphase =>
    (ordered.committed call request version).1 (by rw [hphase]; rfl)
  failed := fun call request error hphase commit hmem hcall => by
    subst hcall
    cases ordered.committed_at hmem hphase
  valid := ordered.valid
  reload := fun call i => reloadAlone_document ordered
  snapshot := ordered.snapshot

/-- In every run in which every `DELETE` finds its resource, or a document the encoder would write
the same way, the edits reported as done are applied one after the other and the others not at
all. -/
theorem edits_serialisable {start : World Config} (initial : start.Initial codec)
    (steps : List Step) (finds : Meets (Step.act codec) (FindsResource codec) steps start) :
    Serialisable codec start.stored (runAll (Step.act codec) steps start) := by
  have start_chain : Chain codec start.stored start.commits start.stored := by
    rw [initial.commits]
    exact .start
  obtain ⟨ordered, chain⟩ := invariant_runAll
    (P := fun w => Ordered codec w ∧ Chain codec start.stored w.commits w.stored)
    (fun w step kept hfinds => ⟨act_ordered kept.1 step, act_chain kept.1 kept.2 hfinds⟩)
    ⟨initial.ordered, start_chain⟩ finds
  exact ordered.serialisable chain

end Steps

/-! ## A `DELETE` that fails and still writes -/

/-- A document with one feed, as the encoder writes it. -/
def oneFeed (source : String) : Document :=
  "storage:\n    type: fs\n    fs:\n        path: /srv\nfeeds:\n    - name: npm\n" ++
    "      format: npm\n      " ++ source ++ "\n"

def hosted : Document := oneFeed "hosted: true"

/-- A codec for documents with the feed `npm`, which writes them its own way; every document names
its own version. -/
def plainCodec : Codec Unit where
  unmarshal _ := .ok (.mk .document "" "" [.mk .mapping "" ""
    [.plain "storage", .mk .mapping "" "" [.plain "type", .plain "fs",
        .plain "fs", .mk .mapping "" "" [.plain "path", .plain "/srv"]],
      .plain "feeds", .mk .sequence "" "" [.mk .mapping "" "" [.plain "name", .plain "npm",
        .plain "format", .plain "npm", .plain "hosted", .plain "true"]]]])
  marshal _ := .ok hosted
  parse _ := .ok ()
  validate _ := .ok ()
  version := id
  version_injective := Function.injective_id

def settled (document : Document) : World Unit :=
  { stored := document, replicas := fun _ => ⟨document, (), document, none⟩ }

theorem settled_initial (document : Document) : (settled document).Initial plainCodec :=
  ⟨rfl, fun _ => rfl, rfl, ⟨(), rfl⟩, fun _ => rfl, fun _ => rfl⟩

def editSteps (call : Nat) (request : Request) : List Step :=
  [.submit call request, .acquire call true, .prepare call true, .enter call, .compare call true,
    .put call true, .swap call, .leave call]

def strayDelete : Request := ⟨0, deleteFeed "pypi", ""⟩

/-- The condition is met by a document the encoder would write the same way. -/
theorem edits_serialisable_stray :
    (settled hosted).Initial plainCodec ∧
      Meets (Step.act plainCodec) (FindsResource plainCodec) (editSteps 0 strayDelete)
        (settled hosted) ∧
      Serialisable plainCodec hosted
        (runAll (Step.act plainCodec) (editSteps 0 strayDelete) (settled hosted)) := by
  have finds : Meets (Step.act plainCodec) (FindsResource plainCodec) (editSteps 0 strayDelete)
      (settled hosted) := by
    refine ⟨trivial, trivial, trivial, trivial, trivial, ?_, trivial, trivial, trivial⟩
    intro request write hphase
    cases hphase
    intro next hnext
    cases hnext
    rfl
  exact ⟨settled_initial _, finds, edits_serialisable (settled_initial _) _ finds⟩

/-- A feed that is not there is removed from a document someone formatted by hand.  The answer is
404, and the document, its formatting and its version have changed. -/
theorem failed_delete_rewrites :
    (settled (hosted ++ "\n")).Initial plainCodec ∧
      ¬ Serialisable plainCodec (hosted ++ "\n")
        (runAll (Step.act plainCodec) (editSteps 0 strayDelete) (settled (hosted ++ "\n"))) := by
  refine ⟨settled_initial _, fun serialisable => ?_⟩
  have hsame : hosted = hosted ++ "\n" := serialisable.serial.eq_of_nil rfl
  exact absurd hsame (by decide)

end FondacoFormal.Admin
