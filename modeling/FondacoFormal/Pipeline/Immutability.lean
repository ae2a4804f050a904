import FondacoFormal.Library.Runs
import FondacoFormal.Pipeline.Publish
import FondacoFormal.Repl.Transactions

/-!
# A published coordinate is published once

Every transaction of a publish stamps the `hlc_state` row before it looks at the hosted rows,
so that row is a gate: the statements of two publishes never interleave behind it.
-/

namespace FondacoFormal.Pipeline

open Library Library.Runs Library.ReadCommitted Library.ReadCommitted.Database State Repl

/-! ## A transaction under way -/

def requestKey (req : PublishRequest) : PathKey :=
  (req.feed, req.path)

def Stamped (s : SiteState) (h : HLC) (seen : SiteState) : Prop :=
  ∃ nowMs clock, replHlcNow nowMs s.clock = .ok (clock, h) ∧ seen = { s with clock := clock }

/-- What a call sees is an intermediate state of its transaction run in one go from `s`. -/
def Midway (p : Publisher) (s : SiteState) (call : PublishCall) (seen : SiteState) : Prop :=
  match call.phase with
  | .begun => True
  | .stamped h => Stamped s h seen
  | .conflicting h => Stamped s h seen ∧ ∃ row, s.hosted.find (requestKey call.req) = some row
  | .updating h => Stamped s h seen ∧ ∃ row, s.hosted.find (requestKey call.req) = some row ∧
      row.sha256 ≠ call.req.sha256 ∧ row.mutable = true ∧ call.req.mutable = true
  | .written h => ∃ nowMs, insertHostedTx p.site call.req nowMs s = .ok (seen, h, true)
  | .announced h => p.replicating = true ∧ ∃ nowMs firstMs inserted e,
      insertHostedTx p.site call.req nowMs s = .ok (inserted, h, true) ∧
      appendJournal p.pg p.site (.manifestPut (.ok (call.req.payload h))) firstMs call.startedAt
        inserted = .ok (seen, e)
  | .finishing created => ∃ clock h, clock.startedAt = call.startedAt ∧
      p.insert call.req clock s = .ok (seen, h, created)

/-- The invariant: past its first statement a call holds the clock row and is midway. -/
structure Serialized (p : Publisher) (w : Publishing) : Prop where
  gated : Gated .clock w.db
  holds : ∀ i call, w.calls i = some call → call.phase ≠ .begun → w.db.lock .clock = some i
  clean : ∀ i, (∀ call, w.calls i = some call → call.phase = .begun) → w.db.own i = []
  midway : ∀ i call, w.calls i = some call → Midway p w.db.committed call (w.db.view i)

variable {db : Database SiteState RowWrite RowKey Nat} {phase : PublishPhase} {other : PublishCall}

namespace Serialized

variable {p : Publisher} {w : Publishing} {i : Nat} {call : PublishCall}

theorem start (p : Publisher) (s : SiteState) : Serialized p (.start s) where
  gated := quiet_gated s
  holds := fun _ _ hcall => (nomatch hcall)
  clean := fun _ _ => rfl
  midway := fun _ _ hcall => (nomatch hcall)

theorem others (inv : Serialized p w) (hfree : w.db.Free i .clock) {j : Nat} (hne : j ≠ i)
    (hother : w.calls j = some other) : other.phase = .begun := by
  by_contra hphase
  have hheld := inv.holds j other hother hphase
  rcases hfree with hnone | hself
  · rw [hnone] at hheld
    cases hheld
  · rw [hself] at hheld
    cases hheld
    exact hne rfl

theorem calls_update {next : Option PublishCall} {j : Nat}
    (hother : Function.update w.calls i next j = some other) :
    j = i ∧ next = some other ∨ j ≠ i ∧ w.calls j = some other := by
  by_cases heq : j = i
  · rw [heq, Function.update_self] at hother
    exact .inl ⟨heq, hother⟩
  · rw [Function.update_of_ne heq] at hother
    exact .inr ⟨heq, hother⟩

variable (inv : Serialized p w)

include inv

theorem free (hcall : w.calls i = some call) (hphase : call.phase ≠ .begun) (row : RowKey) :
    w.db.Free i row :=
  inv.gated.free (.inr (inv.holds i call hcall hphase)) row

theorem proceed (hfree : w.db.Free i .clock) (hgated : Gated .clock db)
    (hcommitted : db.committed = w.db.committed) (hown : ∀ j, j ≠ i → db.own j = w.db.own j)
    (hlock : db.lock .clock = some i) (hphase : phase ≠ .begun)
    (hmidway : Midway p w.db.committed { call with phase := phase } (db.view i)) :
    Serialized p (w.proceed i db call phase) := by
  refine ⟨hgated, ?_, ?_, ?_⟩
  · intro j other hother hbegun
    rcases calls_update hother with ⟨rfl, -⟩ | ⟨hne, hold⟩
    · exact hlock
    · exact absurd (inv.others hfree hne hold) hbegun
  · intro j hbegun
    have hne : j ≠ i := by
      rintro rfl
      exact hphase (hbegun { call with phase := phase } (Function.update_self _ _ _))
    refine (hown j hne).trans (inv.clean j ?_)
    intro other hother
    exact inv.others hfree hne hother
  · intro j other hother
    rcases calls_update hother with ⟨rfl, hnew⟩ | ⟨hne, hold⟩
    · cases hnew
      exact hcommitted ▸ hmidway
    · unfold Midway
      rw [inv.others hfree hne hold]
      trivial

theorem close {ended : List Ended}
    (hown : db.own = Function.update w.db.own i []) (hlock : db.lock = w.db.released i)
    (hcommitted : db.committed = w.db.committed ∨ w.db.lock .clock = some i) :
    Serialized p ⟨db, Function.update w.calls i none, ended⟩ := by
  refine ⟨inv.gated.ended hown hlock, ?_, ?_, ?_⟩
  · intro j other hother hbegun
    obtain ⟨hne, hold⟩ := (calls_update hother).resolve_left fun hself => nomatch hself.2
    have hheld := inv.holds j other hold hbegun
    change db.lock .clock = some j
    rw [hlock]
    exact released_eq_some.mpr ⟨hheld, hne⟩
  · intro j hbegun
    change db.own j = []
    rw [hown]
    by_cases heq : j = i
    · rw [heq, Function.update_self]
    · rw [Function.update_of_ne heq]
      refine inv.clean j fun other hother => hbegun other ?_
      exact (Function.update_of_ne heq _ _).trans hother
  · intro j other hother
    obtain ⟨hne, hold⟩ := (calls_update hother).resolve_left fun hself => nomatch hself.2
    rcases hcommitted with hsame | hheld
    · have hview : db.view j = w.db.view j := by
        unfold view
        rw [hown, Function.update_of_ne hne, hsame]
      change Midway p db.committed other (db.view j)
      rw [hsame, hview]
      exact inv.midway j other hold
    · unfold Midway
      rw [inv.others (.inr hheld) hne hold]
      trivial

theorem begin (hnone : w.calls i = none) (req : PublishRequest) (startedAt : Int) :
    Serialized p { w with
      calls := Function.update w.calls i (some ⟨req, startedAt, .begun⟩) } := by
  refine ⟨inv.gated, ?_, ?_, ?_⟩
  · intro j other hother hbegun
    rcases calls_update hother with ⟨-, hnew⟩ | ⟨-, hold⟩
    · cases hnew
      exact absurd rfl hbegun
    · exact inv.holds j other hold hbegun
  · intro j hbegun
    refine inv.clean j fun other hother => ?_
    have hne : j ≠ i := by
      rintro rfl
      rw [hnone] at hother
      cases hother
    exact hbegun other ((Function.update_of_ne hne _ _).trans hother)
  · intro j other hother
    rcases calls_update hother with ⟨-, hnew⟩ | ⟨-, hold⟩
    · cases hnew
      trivial
    · exact inv.midway j other hold

theorem fail (error : PublishError) : Serialized p (w.fail i call error) :=
  inv.close rfl rfl (.inl rfl)

end Serialized

/-! ## One statement -/

def PublishPhase.rank : PublishPhase → Nat
  | .begun => 7
  | .stamped _ => 6
  | .conflicting _ => 5
  | .updating _ => 4
  | .written _ => 3
  | .announced _ => 2
  | .finishing _ => 1

inductive StatementEffect (p : Publisher) (w : Publishing) (i : Nat) (call : PublishCall) :
    Publishing → Prop where
  | waits (busy : ¬ w.db.Free i .clock) : StatementEffect p w i call w
  | proceeds {db : Database SiteState RowWrite RowKey Nat} {phase : PublishPhase}
      (fewer : phase.rank < call.phase.rank) (hidden : db.committed = w.db.committed)
      (held : db.lock .clock = some i) :
      StatementEffect p w i call (w.proceed i db call phase)
  | fails {clock : TxClock} {context : String} {cause : SqlCause}
      (ran : p.insert call.req clock w.db.committed = .error (.sql context cause)) :
      StatementEffect p w i call (w.fail i call (.database cause))
  | refuses {row : HostedRow} (found : w.db.committed.hosted.find (requestKey call.req) = some row)
      (differs : row.sha256 ≠ call.req.sha256)
      (fixed : row.mutable = false ∨ call.req.mutable = false) :
      StatementEffect p w i call (w.fail i call .immutable)
  | commits {clock : TxClock} {h : HLC} {created : Bool}
      (ran : p.insert call.req clock w.db.committed = .ok (w.db.view i, h, created)) :
      StatementEffect p w i call
        (w.finish i (w.db.commit i) call (.ok ⟨created, call.req.sha256⟩))

variable {req : PublishRequest} {h : HLC} {row : HostedRow} {key : PathKey}
  {entry bytes : JournalEntry}

section Statement

variable {p : Publisher} {w : Publishing} {i : Nat} {call : PublishCall}

variable {nowMs startedAt : Int}

theorem insert_of_same {s : SiteState} {clock : HlcState}
    (hclock : replHlcNow nowMs s.clock = .ok (clock, h))
    (hfind : s.hosted.find (requestKey req) = some row) (hsame : row.sha256 = req.sha256) :
    p.insert req ⟨nowMs, 0, 0, startedAt⟩ s = .ok ({ s with clock := clock }, h, false) := by
  have hinsert : insertHostedTx p.site req nowMs s = .ok ({ s with clock := clock }, h, false) := by
    unfold insertHostedTx
    unfold requestKey at hfind
    simp only [hclock, hfind, if_pos hsame]
  unfold Publisher.insert
  split
  · unfold insertWithJournal
    simp only [hinsert]
    rfl
  · exact hinsert

theorem insert_of_announced {firstMs secondMs : Int} {s inserted announced done : SiteState}
    (hreplicating : p.replicating = true)
    (ran : insertHostedTx p.site req nowMs s = .ok (inserted, h, true))
    (first : appendJournal p.pg p.site (.manifestPut (.ok (req.payload h))) firstMs startedAt
      inserted = .ok (announced, entry))
    (second : appendJournal p.pg p.site (.blobAvailable (.ok ⟨req.sha256, req.size⟩)) secondMs
      startedAt announced = .ok (done, bytes)) :
    p.insert req ⟨nowMs, firstMs, secondMs, startedAt⟩ s = .ok (done, h, true) := by
  have happend :
    appendManifestPut p.pg p.site req h ⟨nowMs, firstMs, secondMs, startedAt⟩ inserted =
      .ok (done, entry) := by
    unfold appendManifestPut
    rw [first]
    change (appendJournal _ _ _ _ _ _ >>= _) = _
    rw [second]
    rfl
  unfold Publisher.insert insertWithJournal
  rw [if_pos hreplicating]
  simp only [ran, happend]
  rfl

/-- What fails the row's transaction, or an announcement after it, fails the whole of it. -/
theorem insert_of_failed {s : SiteState} {cause : SqlCause} (clock : TxClock)
    (failed : (∃ context,
        insertHostedTx p.site req clock.stampMs s = .error (.sql context cause)) ∨
      p.replicating = true ∧ ∃ inserted h,
        insertHostedTx p.site req clock.stampMs s = .ok (inserted, h, true) ∧
        appendManifestPut p.pg p.site req h clock inserted = .error cause) :
    ∃ context, p.insert req clock s = .error (.sql context cause) := by
  unfold Publisher.insert insertWithJournal
  rcases failed with ⟨context, hstamp⟩ | ⟨hreplicating, inserted, h, hinsert, happend⟩
  · simp only [hstamp]
    exact ⟨context, by split <;> rfl⟩
  · simp only [hinsert, happend, if_pos hreplicating]
    exact ⟨_, rfl⟩

variable (inv : Serialized p w)

include inv

variable (hcall : w.calls i = some call)

include hcall

section

variable (hphase : call.phase ≠ .begun)

include hphase

/-- A journal entry as a statement: the view becomes what `AppendJournal` makes of it. -/
theorem append_effect (nowMs : Int) (event : Event) (hrank : phase.rank < call.phase.rank)
    (hnext : phase ≠ .begun)
    (hfails : ∀ cause, appendJournal p.pg p.site event nowMs call.startedAt (w.db.view i) =
      .error cause → ∃ clock context,
        p.insert call.req clock w.db.committed = .error (.sql context cause))
    (hmidway : ∀ next e, appendJournal p.pg p.site event nowMs call.startedAt (w.db.view i) =
      .ok (next, e) → Midway p w.db.committed { call with phase := phase } next) :
    StatementEffect p w i call (w.append p i nowMs call event phase) ∧
      Serialized p (w.append p i nowMs call event phase) := by
  have hlock := inv.holds i call hcall hphase
  unfold Publishing.append
  rw [if_pos (inv.free hcall hphase .clock)]
  cases hran : appendJournal p.pg p.site event nowMs call.startedAt (w.db.view i) with
  | error cause =>
    obtain ⟨clock, context, hinsert⟩ := hfails cause hran
    exact ⟨.fails hinsert, inv.fail _⟩
  | ok result =>
    obtain ⟨next, e⟩ := result
    dsimp only
    rw [if_pos (inv.free hcall hphase (.journal e.key))]
    generalize hdb : (w.db.write i (.clock next.clock)).write i
      (.journal e.key ⟨e.event, e.hlc, e.schemaVersion, call.startedAt⟩) = db
    have hheld : db.lock .clock = some i := by
      rw [← hdb]
      rfl
    have hcommitted : db.committed = w.db.committed := by
      rw [← hdb]
      rfl
    have hgated : Gated .clock db := by
      rw [← hdb]
      exact (inv.gated.write (.inr hlock) (.inl rfl)).write (.inr rfl) (.inr rfl)
    have hview : db.view i = next := by
      rw [← hdb, view_write, view_write]
      obtain ⟨clock, seq, stored, -, -, -, hentry, hstate⟩ := appendJournal_ok hran
      rw [hstate, hentry]
      rfl
    refine ⟨.proceeds hrank hcommitted hheld, ?_⟩
    refine inv.proceed (.inr hlock) hgated hcommitted ?_ hheld hnext ?_
    · intro j hne
      rw [← hdb, own_write_of_ne hne, own_write_of_ne hne]
    · rw [hview]
      exact hmidway next e hran

theorem reads_effect (hrank : phase.rank < call.phase.rank) (hnext : phase ≠ .begun)
    (hmidway : Midway p w.db.committed { call with phase := phase } (w.db.view i)) :
    StatementEffect p w i call (w.proceed i w.db call phase) ∧
      Serialized p (w.proceed i w.db call phase) := by
  have hlock := inv.holds i call hcall hphase
  refine ⟨.proceeds hrank rfl hlock, ?_⟩
  exact inv.proceed (.inr hlock) inv.gated rfl (fun _ _ => rfl) hlock hnext hmidway

theorem writes_effect (hrank : (PublishPhase.written h).rank < call.phase.rank)
    (hmidway : ∃ nowMs, insertHostedTx p.site call.req nowMs w.db.committed =
      .ok (writeHosted key row (w.db.view i), h, true)) :
    StatementEffect p w i call
        (w.proceed i (w.db.write i (.hosted key row)) call (.written h)) ∧
      Serialized p (w.proceed i (w.db.write i (.hosted key row)) call (.written h)) := by
  have hlock := inv.holds i call hcall hphase
  refine ⟨.proceeds hrank rfl hlock, ?_⟩
  refine inv.proceed (.inr hlock) (inv.gated.write (.inr hlock) (.inr hlock)) rfl
    (fun j hne => own_write_of_ne hne) hlock (by simp) ?_
  rw [view_write]
  exact hmidway

end

theorem begun_effect (hphase : call.phase = .begun) (nowMs : Int) :
    StatementEffect p w i call (w.statement p i nowMs call) ∧
      Serialized p (w.statement p i nowMs call) := by
  have hclean : w.db.own i = [] := by
    refine inv.clean i fun other hother => ?_
    rw [hcall] at hother
    cases hother
    exact hphase
  unfold Publishing.statement
  simp only [hphase]
  split
  · rename_i hfree
    rw [view_of_own_nil hclean]
    cases hclock : replHlcNow nowMs w.db.committed.clock with
    | error cause =>
      have hstamp : insertHostedTx p.site call.req nowMs w.db.committed =
          .error (.sql "stamp hybrid logical clock" cause) := by
        unfold insertHostedTx
        rw [hclock]
      obtain ⟨context, hinsert⟩ := insert_of_failed ⟨nowMs, 0, 0, 0⟩ (.inl ⟨_, hstamp⟩)
      exact ⟨.fails hinsert, inv.fail _⟩
    | ok result =>
      obtain ⟨clock, h⟩ := result
      refine ⟨.proceeds (by simp [hphase, PublishPhase.rank]) rfl rfl, ?_⟩
      refine inv.proceed hfree (inv.gated.write hfree (.inl rfl)) rfl
        (fun j hne => own_write_of_ne hne) rfl (by simp) ?_
      rw [view_write, view_of_own_nil hclean]
      exact ⟨nowMs, clock, hclock, rfl⟩
  · rename_i hbusy
    exact ⟨.waits hbusy, inv⟩

theorem statement_effect (nowMs : Int) :
    StatementEffect p w i call (w.statement p i nowMs call) ∧
      Serialized p (w.statement p i nowMs call) := by
  have hmidway := inv.midway i call hcall
  by_cases hbehind : call.phase = .begun
  · exact begun_effect inv hcall hbehind nowMs
  unfold Midway at hmidway
  unfold Publishing.statement
  cases hphase : call.phase with
  | begun => exact absurd hphase hbehind
  | stamped h =>
    simp only [hphase] at hmidway
    obtain ⟨stampMs, clock, hclock, hseen⟩ := hmidway
    have hhosted : (w.db.view i).hosted = w.db.committed.hosted := by rw [hseen]
    dsimp only
    rw [hhosted]
    cases hfind : w.db.committed.hosted.find (call.req.feed, call.req.path) with
    | some row =>
      refine reads_effect inv hcall hbehind (by simp [hphase, PublishPhase.rank]) (by simp) ?_
      exact ⟨⟨stampMs, clock, hclock, hseen⟩, row, hfind⟩
    | none =>
      rw [if_pos (inv.free hcall hbehind _)]
      refine writes_effect inv hcall hbehind (by simp [hphase, PublishPhase.rank]) ⟨stampMs, ?_⟩
      unfold insertHostedTx
      simp only [hclock, hfind, hseen]
  | conflicting h =>
    simp only [hphase] at hmidway
    obtain ⟨⟨stampMs, clock, hclock, hseen⟩, row, hfind⟩ := hmidway
    have hread : (w.db.view i).hosted.find (call.req.feed, call.req.path) = some row := by
      rw [hseen]
      exact hfind
    simp only [hread]
    split
    · rename_i hsame
      refine reads_effect inv hcall hbehind (by simp [hphase, PublishPhase.rank]) (by simp) ?_
      refine ⟨⟨stampMs, 0, 0, call.startedAt⟩, h, rfl, ?_⟩
      rw [hseen]
      exact insert_of_same hclock hfind hsame
    · rename_i hdiffers
      split
      · rename_i hfixed
        refine ⟨.refuses hfind hdiffers ?_, inv.fail _⟩
        simpa using hfixed
      · rename_i hmutable
        refine reads_effect inv hcall hbehind (by simp [hphase, PublishPhase.rank]) (by simp) ?_
        have hboth : row.mutable = true ∧ call.req.mutable = true := by simpa using hmutable
        exact ⟨⟨stampMs, clock, hclock, hseen⟩, row, hfind, hdiffers, hboth⟩
  | updating h =>
    simp only [hphase] at hmidway
    obtain ⟨⟨stampMs, clock, hclock, hseen⟩, row, hfind, hdiffers, hrow, hreq⟩ := hmidway
    have hread : (w.db.view i).hosted.find (call.req.feed, call.req.path) = some row := by
      rw [hseen]
      exact hfind
    simp only [hread]
    rw [if_pos (inv.free hcall hbehind _)]
    refine writes_effect inv hcall hbehind (by simp [hphase, PublishPhase.rank]) ⟨stampMs, ?_⟩
    unfold requestKey at hfind
    unfold insertHostedTx
    simp only [hclock, hfind, hseen, if_neg hdiffers, hrow, hreq]
    rfl
  | written h =>
    simp only [hphase] at hmidway
    obtain ⟨stampMs, hinsert⟩ := hmidway
    dsimp only
    split
    · rename_i hreplicating
      refine append_effect inv hcall hbehind nowMs _ (by simp [hphase, PublishPhase.rank])
        (by simp) ?_ ?_
      · intro cause hran
        refine ⟨⟨stampMs, nowMs, 0, call.startedAt⟩,
          insert_of_failed _ (.inr ⟨hreplicating, _, h, hinsert, ?_⟩)⟩
        unfold appendManifestPut
        rw [hran]
        rfl
      · intro next e hran
        exact ⟨hreplicating, stampMs, nowMs, w.db.view i, e, hinsert, hran⟩
    · rename_i hreplicating
      refine reads_effect inv hcall hbehind (by simp [hphase, PublishPhase.rank]) (by simp) ?_
      refine ⟨⟨stampMs, 0, 0, call.startedAt⟩, h, rfl, ?_⟩
      unfold Publisher.insert
      rw [Bool.eq_false_iff.mpr hreplicating, hinsert]
      rfl
  | announced h =>
    simp only [hphase] at hmidway
    obtain ⟨hreplicating, stampMs, firstMs, inserted, entry, hinsert, hfirst⟩ := hmidway
    dsimp only
    refine append_effect inv hcall hbehind nowMs _ (by simp [hphase, PublishPhase.rank])
      (by simp) ?_ ?_
    · intro cause hran
      refine ⟨⟨stampMs, firstMs, nowMs, call.startedAt⟩,
        insert_of_failed _ (.inr ⟨hreplicating, _, h, hinsert, ?_⟩)⟩
      unfold appendManifestPut
      rw [hfirst]
      change (appendJournal _ _ _ _ _ _ >>= _) = _
      rw [hran]
      rfl
    · intro next e hran
      exact ⟨⟨stampMs, firstMs, nowMs, call.startedAt⟩, h, rfl,
        insert_of_announced hreplicating hinsert hfirst hran⟩
  | finishing created =>
    have hlock := inv.holds i call hcall hbehind
    simp only [hphase] at hmidway
    obtain ⟨clock, h, -, hran⟩ := hmidway
    dsimp only
    exact ⟨.commits hran, inv.close rfl rfl (.inr hlock)⟩

end Statement

/-! ## Calls that returned -/

/-- How a call ended: committed as in one go, refused, or stopped by a check or the database. -/
inductive EndsAs (p : Publisher) (e : Ended) : Prop where
  | committed {clock : TxClock} {h : HLC} {created : Bool}
      (ran : p.insert e.req clock e.before = .ok (e.after, h, created))
      (result : e.result = .ok ⟨created, e.req.sha256⟩)
  | refused {row : HostedRow} (found : e.before.hosted.find (requestKey e.req) = some row)
      (differs : row.sha256 ≠ e.req.sha256)
      (fixed : row.mutable = false ∨ e.req.mutable = false)
      (result : e.result = .error .immutable) (same : e.after = e.before)
  | unchecked {error : PublishError} (check : precheck e.req e.staged = some error)
      (same : e.after = e.before)
  | rejected {clock : TxClock} {context : String} {cause : SqlCause}
      (ran : p.insert e.req clock e.before = .error (.sql context cause))
      (same : e.after = e.before)

/-- The calls follow one another without a gap, from one state of the tables to another. -/
def Chained : SiteState → List Ended → SiteState → Prop
  | s, [], t => s = t
  | s, e :: rest, t => e.before = s ∧ Chained e.after rest t

variable {ended : List Ended} {e : Ended} {s t : SiteState}

theorem chained_snoc (chained : Chained s ended t) (hbefore : e.before = t) :
    Chained s (ended ++ [e]) e.after := by
  induction ended generalizing s with
  | nil => exact ⟨hbefore.trans chained.symm, rfl⟩
  | cons first rest ih => exact ⟨chained.1, ih chained.2⟩

/-- What every call does to the tables holds between any two committed states, in order. -/
theorem chained_pairwise {R : SiteState → SiteState → Prop}
    (htrans : ∀ {s t u}, R s t → R t u → R s u) (chained : Chained s ended t)
    (hstep : ∀ e ∈ ended, R e.before e.after) : (s :: ended.map Ended.after).Pairwise R := by
  induction ended generalizing s with
  | nil => exact List.pairwise_singleton R s
  | cons e rest ih =>
    obtain ⟨rfl, chained⟩ := chained
    have hrest := ih chained fun other hmem => hstep other (List.mem_cons_of_mem e hmem)
    have hfirst := hstep e List.mem_cons_self
    refine List.pairwise_cons.mpr ⟨?_, hrest⟩
    intro later hlater
    rcases List.mem_cons.mp hlater with rfl | hmem
    · exact hfirst
    · exact htrans hfirst ((List.pairwise_cons.mp hrest).1 later hmem)

theorem chained_last (chained : Chained s ended t) :
    (s :: ended.map Ended.after).getLast? = some t := by
  induction ended generalizing s with
  | nil =>
    rw [show s = t from chained]
    rfl
  | cons e rest ih =>
    exact ih chained.2

/-- Everything known about a run so far; `P` holds of every request made. -/
structure Recorded (p : Publisher) (P : PublishRequest → Prop) (start : SiteState)
    (w : Publishing) : Prop where
  serialized : Serialized p w
  chained : Chained start w.ended w.db.committed
  ends : ∀ e ∈ w.ended, EndsAs p e
  asked : ∀ i call, w.calls i = some call → P call.req
  answered : ∀ e ∈ w.ended, P e.req

variable {call : PublishCall} {i : Nat}

namespace Recorded

variable {p : Publisher} {P : PublishRequest → Prop} {start : SiteState} {w : Publishing}

variable (recorded : Recorded p P start w)

include recorded

theorem returned {later : Publishing} (hserialized : Serialized p later)
    (hended : later.ended = w.ended ++ [e]) (hbefore : e.before = w.db.committed)
    (hafter : later.db.committed = e.after) (hends : EndsAs p e)
    (hasked : ∀ i call, later.calls i = some call → P call.req) (hreq : P e.req) :
    Recorded p P start later := by
  refine ⟨hserialized, ?_, ?_, hasked, ?_⟩
  · rw [hended, hafter]
    exact chained_snoc recorded.chained hbefore
  · rw [hended, List.forall_mem_append, List.forall_mem_singleton]
    exact ⟨recorded.ends, hends⟩
  · rw [hended, List.forall_mem_append, List.forall_mem_singleton]
    exact ⟨recorded.answered, hreq⟩

theorem asked_update {changed : Option PublishCall}
    (hchanged : ∀ call, changed = some call → P call.req) :
    ∀ j call, Function.update w.calls i changed j = some call → P call.req := by
  intro j call hcall
  rcases Serialized.calls_update hcall with ⟨-, hnew⟩ | ⟨-, hold⟩
  · exact hchanged call hnew
  · exact recorded.asked j call hold

theorem fail (hcall : w.calls i = some call) {error : PublishError}
    (hends : EndsAs p ⟨call.req, true, .error error, w.db.committed, w.db.committed⟩) :
    Recorded p P start (w.fail i call error) :=
  recorded.returned (recorded.serialized.fail error) rfl rfl rfl hends
    (recorded.asked_update fun _ impossible => (nomatch impossible)) (recorded.asked i call hcall)

theorem statement (hcall : w.calls i = some call) (nowMs : Int) :
    Recorded p P start (w.statement p i nowMs call) := by
  obtain ⟨effect, serialized⟩ := statement_effect recorded.serialized hcall nowMs
  have hreq := recorded.asked i call hcall
  generalize w.statement p i nowMs call = later at effect serialized ⊢
  cases effect with
  | waits busy => exact recorded
  | proceeds fewer hidden held =>
    refine ⟨serialized, ?_, recorded.ends, ?_, recorded.answered⟩
    · unfold Publishing.proceed
      rw [hidden]
      exact recorded.chained
    · refine recorded.asked_update ?_
      rintro _ ⟨⟩
      exact hreq
  | fails ran => exact recorded.fail hcall (.rejected ran rfl)
  | refuses found differs fixed =>
    exact recorded.fail hcall (.refused found differs fixed rfl rfl)
  | commits ran =>
    exact recorded.returned serialized rfl rfl rfl (.committed ran rfl)
      (recorded.asked_update fun _ impossible => (nomatch impossible)) hreq

theorem step (op : PublishOp)
    (hop : ∀ i req startedAt staged, op = .call i req startedAt staged → P req) :
    Recorded p P start (op.run p w) := by
  cases op with
  | call i req startedAt staged =>
    have hreq := hop i req startedAt staged rfl
    simp only [PublishOp.run]
    split
    · exact recorded
    · rename_i hnone
      split
      · rename_i error hcheck
        refine recorded.returned ?_ rfl rfl rfl (.unchecked hcheck rfl) recorded.asked hreq
        exact ⟨recorded.serialized.gated, recorded.serialized.holds, recorded.serialized.clean,
          recorded.serialized.midway⟩
      · refine ⟨recorded.serialized.begin hnone req startedAt, recorded.chained, recorded.ends,
          recorded.asked_update ?_, recorded.answered⟩
        rintro _ ⟨⟩
        exact hreq
  | next i nowMs =>
    simp only [PublishOp.run]
    split
    · exact recorded
    · rename_i call hcall
      exact recorded.statement hcall nowMs
  | interrupt i =>
    simp only [PublishOp.run]
    split
    · exact recorded
    · refine ⟨recorded.serialized.close rfl rfl (.inl rfl), recorded.chained, recorded.ends,
        recorded.asked_update ?_, recorded.answered⟩
      exact fun _ impossible => (nomatch impossible)

end Recorded

/-! ## What a committed call did -/

def digestAt (key : PathKey) (s : SiteState) : Option String :=
  (s.hosted.find key).map HostedRow.sha256

/--
Two entries were appended and no others: a `manifest_put` for the request's
digest and the `blob_available` that goes with it.
-/
def Announces (p : Publisher) (req : PublishRequest) (s t : SiteState) : Prop :=
  ∃ h entry bytes, p.pg.jsonb (.manifestPut (.ok (req.payload h))) = some entry.event ∧
    p.pg.jsonb (.blobAvailable (.ok ⟨req.sha256, req.size⟩)) = some bytes.event ∧
    entry.originSite = p.site ∧ bytes.originSite = p.site ∧
    entry ∉ journaled s.journal ∧ bytes ∉ insert entry (journaled s.journal) ∧
    journaled t.journal = insert bytes (insert entry (journaled s.journal))

inductive InsertEffect (p : Publisher) (req : PublishRequest) (s t : SiteState) : Bool → Prop where
  | kept {row : HostedRow} (found : s.hosted.find (requestKey req) = some row)
      (same : row.sha256 = req.sha256) (hosted : t.hosted = s.hosted)
      (journal : t.journal = s.journal) : InsertEffect p req s t false
  | written {h : HLC} (row : RowWritten p.site req h s t)
      (announced : p.replicating = true → Announces p req s t)
      (silent : p.replicating = false → t.journal = s.journal) : InsertEffect p req s t true

variable {clock : TxClock}

theorem journaled_of_fresh {journal : Table (String × Int) JournalRow} {e : JournalEntry}
    (hfresh : journal.find e.key = none) : e ∉ journaled journal := by
  rintro ⟨row, hfind, -⟩
  rw [hfresh] at hfind
  cases hfind

variable {p : Publisher}

theorem announces_of_appended {s inserted middle t : SiteState}
    (hjournal : inserted.journal = s.journal)
    (first : Appended p.pg p.site (.manifestPut (.ok (req.payload h))) inserted middle entry)
    (second : Appended p.pg p.site (.blobAvailable (.ok ⟨req.sha256, req.size⟩)) middle t bytes) :
    Announces p req s t := by
  have hmiddle : journaled middle.journal = insert entry (journaled s.journal) := by
    rw [first.journal, hjournal]
  refine ⟨h, entry, bytes, first.event, second.event, first.origin, second.origin, ?_, ?_, ?_⟩
  · rw [← hjournal]
    exact journaled_of_fresh first.fresh
  · rw [← hmiddle]
    exact journaled_of_fresh second.fresh
  · rw [second.journal, hmiddle]

theorem insert_effect {created : Bool} (ran : p.insert req clock s = .ok (t, h, created)) :
    InsertEffect p req s t created := by
  unfold Publisher.insert at ran
  split at ran
  · rename_i hreplicating
    obtain ⟨done, hdone, heq⟩ := Fallible.map_eq_ok.mp ran
    cases heq
    obtain ⟨committed, hfound⟩ := insertWithJournal_commit hdone
    cases committed with
    | unannounced same journal later clock =>
      obtain ⟨row, hfind, hsame⟩ := hfound rfl
      exact .kept hfind hsame same.hosted journal
    | announced row journal later clock first second =>
      exact .written row (fun _ => announces_of_appended journal first second)
        fun hoff => absurd (hreplicating.symm.trans hoff) (by simp)
  · rename_i hreplicating
    obtain ⟨-, -, hjournal, hrow⟩ := insertHostedTx_ok ran
    cases created with
    | true =>
      refine .written hrow (fun hon => absurd hon hreplicating) fun _ => hjournal
    | false =>
      obtain ⟨same, row, hfind, hsame⟩ := hrow
      exact .kept hfind hsame same.hosted hjournal

theorem insert_quarantine {created : Bool} (ran : p.insert req clock s = .ok (t, h, created)) :
    t.quarantine = s.quarantine := by
  have hrow : ∀ {site stamp after}, RowWritten site req stamp s after →
      after.quarantine = s.quarantine := by
    intro site stamp after written
    cases written with
    | created _ same | republished _ _ _ same => exact same.quarantine
  rw [Publisher.insert] at ran
  split at ran
  · obtain ⟨done, hdone, heq⟩ := Fallible.map_eq_ok.mp ran
    cases heq
    cases (insertWithJournal_commit hdone).1 with
    | unannounced same => exact same.quarantine
    | announced row => exact hrow row
  · obtain ⟨-, -, -, hwritten⟩ := insertHostedTx_ok ran
    cases created with
    | true => exact hrow hwritten
    | false => exact hwritten.1.quarantine

section Written

variable {site : String} {req : PublishRequest} {h : HLC} {s t : SiteState}

variable (written : RowWritten site req h s t)

include written

theorem rowWritten_replaces (hfind : s.hosted.find (requestKey req) = some row) :
    row.mutable = true ∧ req.mutable = true ∧ row.sha256 ≠ req.sha256 := by
  unfold requestKey at hfind
  cases written with
  | created absent _ =>
    rw [absent] at hfind
    cases hfind
  | republished present mutables differs _ =>
    rw [present] at hfind
    cases hfind
    exact ⟨mutables.1, mutables.2, differs⟩

theorem rowWritten_digest : digestAt (requestKey req) t = some req.sha256 := by
  unfold digestAt requestKey
  cases written with
  | created _ same | republished _ _ _ same =>
    rw [same.hosted, writeHosted, Table.find_put_self]
    rfl

theorem rowWritten_elsewhere (hne : key ≠ requestKey req) :
    t.hosted.find key = s.hosted.find key := by
  cases written with
  | created _ same | republished _ _ _ same =>
    rw [same.hosted, writeHosted]
    exact Table.find_put_of_ne _ _ hne

end Written

/-- The call passes its checks, and the database accepts its statements at any time of day. -/
def Ended.Accepted (p : Publisher) (e : Ended) : Prop :=
  precheck e.req e.staged = none ∧
    ∀ clock context cause, p.insert e.req clock e.before ≠ .error (.sql context cause)

structure CallOutcome (p : Publisher) (key : PathKey) (e : Ended) : Prop where
  /-- An error leaves the row, the journal and everything else as they were. -/
  failed : ∀ error, e.result = .error error → e.after = e.before
  /-- The stored digest again: success, and nothing is created. -/
  same : ∀ row, e.before.hosted.find key = some row → row.sha256 = e.req.sha256 →
    e.Accepted p → e.result = .ok ⟨false, e.req.sha256⟩ ∧ e.after.hosted = e.before.hosted
  /-- Another digest, unless the row and the request are both mutable: `ErrImmutable`. -/
  refused : ∀ row, e.before.hosted.find key = some row → row.sha256 ≠ e.req.sha256 →
    row.mutable = false ∨ e.req.mutable = false → e.Accepted p → e.result = .error .immutable
  /-- No row yet, or another digest with both mutable: the digest is stored. -/
  created : (∀ row, e.before.hosted.find key = some row → row.sha256 ≠ e.req.sha256 ∧
      row.mutable = true ∧ e.req.mutable = true) → e.Accepted p →
    e.result = .ok ⟨true, e.req.sha256⟩ ∧ digestAt key e.after = some e.req.sha256
  /-- A row changes only if it and the request are both mutable. -/
  kept : ∀ row, e.before.hosted.find key = some row →
    row.mutable = false ∨ e.req.mutable = false → e.after.hosted.find key = some row
  /-- A changed digest is the request's, and is announced once in the same transaction. -/
  announced : digestAt key e.after ≠ digestAt key e.before →
    digestAt key e.after = some e.req.sha256 ∧
      (p.replicating = true → Announces p e.req e.before e.after)
  silent : digestAt key e.after = digestAt key e.before ∨ p.replicating = false →
    e.after.journal = e.before.journal

theorem EndsAs.outcome (ends : EndsAs p e) : CallOutcome p (requestKey e.req) e := by
  have hidle : e.after = e.before → ¬ e.Accepted p → CallOutcome p (requestKey e.req) e := by
    intro same rejected
    exact ⟨fun _ _ => same, fun _ _ _ accepted => absurd accepted rejected,
      fun _ _ _ _ accepted => absurd accepted rejected, fun _ accepted => absurd accepted rejected,
      fun row hfind _ => by rwa [same], fun hchanged => absurd (by rw [same]) hchanged,
      fun _ => by rw [same]⟩
  cases ends with
  | committed ran result =>
    have hok : ∀ error, e.result ≠ .error error := by
      intro error hresult
      rw [result] at hresult
      cases hresult
    cases insert_effect ran with
    | kept found same hosted journal =>
      refine ⟨fun error hresult => absurd hresult (hok error),
        fun _ _ _ _ => ⟨result, hosted⟩, ?_, ?_,
        ?_, ?_, fun _ => journal⟩
      · intro row hfind hdiffers _ _
        rw [hfind] at found
        cases found
        exact absurd same hdiffers
      · intro hreplaces _
        exact absurd same (hreplaces _ found).1
      · intro row hfind _
        rw [hosted]
        exact hfind
      · intro hchanged
        refine absurd ?_ hchanged
        unfold digestAt
        rw [hosted]
    | written written announced silent =>
      have hfixed : ∀ row, e.before.hosted.find (requestKey e.req) = some row →
          ¬ (row.mutable = false ∨ e.req.mutable = false) := by
        intro row hfind hfixed
        obtain ⟨hrow, hreq, -⟩ := rowWritten_replaces written hfind
        rw [hrow, hreq] at hfixed
        simp at hfixed
      refine ⟨fun error hresult => absurd hresult (hok error), ?_,
        fun row hfind _ fixed => absurd fixed (hfixed row hfind),
        fun _ _ => ⟨result, rowWritten_digest written⟩,
        fun row hfind fixed => absurd fixed (hfixed row hfind),
        fun _ => ⟨rowWritten_digest written, announced⟩, ?_⟩
      · intro row hfind hsame _
        exact absurd hsame (rowWritten_replaces written hfind).2.2
      · intro hquiet
        refine silent (hquiet.resolve_left fun hsame => ?_)
        rw [rowWritten_digest written] at hsame
        obtain ⟨row, hfind, hsha⟩ := Option.map_eq_some_iff.mp hsame.symm
        exact (rowWritten_replaces written hfind).2.2 hsha
  | refused found differs fixed result same =>
    refine ⟨fun _ _ => same, fun row hfind hsha => ?_, fun _ _ _ _ _ => result,
      fun hreplaces _ => ?_, fun row hfind _ => by rwa [same],
      fun hchanged => absurd (by rw [same]) hchanged, fun _ => by rw [same]⟩
    · rw [hfind] at found
      cases found
      exact absurd hsha differs
    · obtain ⟨-, hrow, hreq⟩ := hreplaces _ found
      rw [hrow, hreq] at fixed
      simp at fixed
  | unchecked check same =>
    exact hidle same fun accepted => nomatch check.symm.trans accepted.1
  | rejected ran same =>
    exact hidle same fun accepted => accepted.2 _ _ _ ran

theorem EndsAs.elsewhere (ends : EndsAs p e) (hne : key ≠ requestKey e.req) :
    e.after.hosted.find key = e.before.hosted.find key := by
  cases ends with
  | committed ran result =>
    cases insert_effect ran with
    | kept found same hosted journal => rw [hosted]
    | written written announced silent => exact rowWritten_elsewhere written hne
  | refused found differs fixed result same => rw [same]
  | unchecked check same | rejected ran same => rw [same]

theorem EndsAs.keeps (ends : EndsAs p e) (hfind : e.before.hosted.find key = some row)
    (hfixed : requestKey e.req = key → row.mutable = false ∨ e.req.mutable = false) :
    e.after.hosted.find key = some row := by
  by_cases heq : key = requestKey e.req
  · rw [heq] at hfind ⊢
    exact ends.outcome.kept row hfind (hfixed heq.symm)
  · rw [ends.elsewhere heq]
    exact hfind

/-! ## Every interleaving -/

/-- The call of `req` returned: it is closed, and its answer is the last one. -/
def ReturnedNext (req : PublishRequest) (i : Nat) (w later : Publishing) : Prop :=
  later.calls i = none ∧ ∃ e, e.req = req ∧ later.ended = w.ended ++ [e]

/-- A call that does not have to wait for the clock row returns after at most seven statements. -/
theorem Serialized.returns {w : Publishing} (inv : Serialized p w) (hcall : w.calls i = some call)
    (hfree : w.db.Free i .clock) (nowMs : Int) :
    ∃ n ≤ call.phase.rank, ReturnedNext call.req i w
      (runAll (PublishOp.run p) (List.replicate n (.next i nowMs)) w) := by
  induction hrank : call.phase.rank using Nat.strong_induction_on generalizing w call with
  | _ rank ih =>
    have hpositive : 1 ≤ rank := by
      rw [← hrank]
      cases call.phase <;> simp [PublishPhase.rank]
    have hrun : PublishOp.run p (.next i nowMs) w = w.statement p i nowMs call := by
      simp only [PublishOp.run, hcall]
    obtain ⟨effect, inv⟩ := statement_effect inv hcall nowMs
    rw [← hrun] at effect inv
    have hone : ∀ db result, PublishOp.run p (.next i nowMs) w = w.finish i db call result →
        ∃ n ≤ rank, ReturnedNext call.req i w
          (runAll (PublishOp.run p) (List.replicate n (.next i nowMs)) w) := by
      intro db result hlater
      refine ⟨1, hpositive, ?_⟩
      change ReturnedNext call.req i w (PublishOp.run p (.next i nowMs) w)
      rw [hlater]
      exact ⟨Function.update_self _ _ _, _, rfl, rfl⟩
    generalize hlater : PublishOp.run p (.next i nowMs) w = later at effect inv
    cases effect with
    | waits busy => exact absurd hfree busy
    | proceeds fewer hidden held =>
      rename_i db phase
      rw [hrank] at fewer
      have hopen : (w.proceed i db call phase).calls i = some { call with phase := phase } :=
        Function.update_self _ _ _
      obtain ⟨n, hn, hreturned⟩ := ih phase.rank fewer inv hopen (.inr held) rfl
      refine ⟨n + 1, by omega, ?_⟩
      change ReturnedNext call.req i w (runAll _ _ (PublishOp.run p (.next i nowMs) w))
      rw [hlater]
      exact hreturned
    | fails ran | refuses found differs fixed | commits ran => exact hone _ _ hlater

def DigestsAgree (key : PathKey) (s t : SiteState) : Prop :=
  ∀ left right, digestAt key s = some left → digestAt key t = some right → left = right

instance (key : PathKey) : Std.Symm (DigestsAgree key) :=
  ⟨fun _ _ agree left right hleft hright => (agree right left hright hleft).symm⟩

def Publishing.history (start : SiteState) (w : Publishing) : List SiteState :=
  start :: w.ended.map Ended.after

structure PublishedOnce (p : Publisher) (start : SiteState) (ops : List PublishOp) (key : PathKey)
    (w : Publishing) : Prop where
  /-- What is committed now is the last state of the history. -/
  current : (w.history start).getLast? = some w.db.committed
  /-- Every call on the path behaves by what is stored when it ends. -/
  outcome : ∀ e ∈ w.ended, requestKey e.req = key → CallOutcome p key e
  /-- Once a row is stored with `mutable = false`, it stays as it is. -/
  fixed : (w.history start).Pairwise fun earlier later => ∀ row,
    earlier.hosted.find key = some row → row.mutable = false → later.hosted.find key = some row
  /-- If every call carries `mutable = false`, at most one digest is ever committed. -/
  single : (∀ i req startedAt staged, PublishOp.call i req startedAt staged ∈ ops →
      requestKey req = key → req.mutable = false) →
    ∀ s ∈ w.history start, ∀ t ∈ w.history start, DigestsAgree key s t
  /-- An open call returns, with an answer of its own, once the clock row is free for it. -/
  returns : ∀ i call, w.calls i = some call → w.db.Free i .clock → ∀ nowMs, ∃ n ≤ 7,
    ReturnedNext call.req i w
      (runAll (PublishOp.run p) (List.replicate n (.next i nowMs)) w)

theorem run_recorded (p : Publisher) (P : PublishRequest → Prop) (start : SiteState)
    (ops : List PublishOp)
    (hops : ∀ i req startedAt staged, PublishOp.call i req startedAt staged ∈ ops → P req) :
    Recorded p P start (runAll (PublishOp.run p) ops (.start start)) := by
  have hmeets : Meets (PublishOp.run p)
      (fun _ op => ∀ i req startedAt staged, op = .call i req startedAt staged → P req) ops
      (.start start) := by
    refine meets_of_forall ?_ _
    rintro op hmem _ i req startedAt staged rfl
    exact hops i req startedAt staged hmem
  refine invariant_runAll (fun w op recorded hop => recorded.step op hop) ?_ hmeets
  exact ⟨.start p start, rfl, List.forall_mem_nil _, fun _ _ hcall => (nomatch hcall),
    List.forall_mem_nil _⟩

/--
Any number of replicas, any interleaving of the statements of their publishes,
any rollbacks: a published coordinate is published once.
-/
theorem coordinates_published_once (p : Publisher) (start : SiteState) (ops : List PublishOp)
    (key : PathKey) :
    PublishedOnce p start ops key (runAll (PublishOp.run p) ops (.start start)) := by
  have recorded := run_recorded p (fun _ => True) start ops fun _ _ _ _ _ => trivial
  refine ⟨chained_last recorded.chained, ?_, ?_, ?_, ?_⟩
  · rintro e hmem rfl
    exact (recorded.ends e hmem).outcome
  · refine chained_pairwise ?_ recorded.chained ?_
    · intro first second third hfirst hsecond row hfind hfixed
      exact hsecond row (hfirst row hfind hfixed) hfixed
    · intro e hmem row hfind hfixed
      exact (recorded.ends e hmem).keeps hfind fun _ => .inl hfixed
  · intro himmutable
    have asked := run_recorded p (fun req => requestKey req = key → req.mutable = false) start ops
      himmutable
    have hstays : (Publishing.history start
        (runAll (PublishOp.run p) ops (.start start))).Pairwise fun earlier later => ∀ row,
        earlier.hosted.find key = some row → later.hosted.find key = some row := by
      refine chained_pairwise ?_ recorded.chained ?_
      · exact fun hfirst hsecond row hfind => hsecond row (hfirst row hfind)
      · intro e hmem row hfind
        exact (recorded.ends e hmem).keeps hfind fun hkey => .inr (asked.answered e hmem hkey)
    have hagree : (Publishing.history start
        (runAll (PublishOp.run p) ops (.start start))).Pairwise (DigestsAgree key) := by
      refine hstays.imp ?_
      intro s t hkeeps left right hleft hright
      obtain ⟨row, hfind, rfl⟩ := Option.map_eq_some_iff.mp hleft
      unfold digestAt at hright
      rw [hkeeps row hfind] at hright
      cases hright
      rfl
    refine fun s hs t ht => hagree.forall_of_forall ?_ hs ht
    intro s _ left right hleft hright
    rw [hleft] at hright
    cases hright
    rfl
  · intro i call hcall hfree nowMs
    obtain ⟨n, hn, hnone⟩ := recorded.serialized.returns hcall hfree nowMs
    refine ⟨n, hn.trans ?_, hnone⟩
    cases call.phase <;> simp [PublishPhase.rank]

-- Two publishers race; the second stamps only after the first has committed.
example : ((runAll (PublishOp.run ⟨"east", .plain, true⟩)
    [.call 0 (samplePublish "aa") 1 true, .call 1 (samplePublish "bb") 2 true, .next 0 10,
      .next 1 11, .next 0 12, .next 0 13, .next 0 14, .next 1 15, .next 0 16, .next 1 17,
      .next 1 18, .next 1 19] (.start {})).ended.map Ended.result) =
      [.ok ⟨true, "aa"⟩, .error .immutable] := rfl

end FondacoFormal.Pipeline
