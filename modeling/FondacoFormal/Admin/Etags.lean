import FondacoFormal.Admin.Serializable

/-!
# ETags and the bodies they are sent with

The handlers read the snapshot and its version one after the other, and nothing keeps the
manager from taking up another document in between.
-/

namespace FondacoFormal.Admin

open Library.Runs

variable {Config : Type}

/-! ## The promise -/

/-- An `ETag` is the version of the document the body was taken from, so that an update sent with
it is applied to that document. -/
structure EtagsHonest (codec : Codec Config) (w : World Config) : Prop where
  described : ∀ response ∈ w.responses, response.etag = codec.version response.document
  conditional : ∀ response ∈ w.responses, response.etag ≠ "" →
    ∀ commit ∈ w.commits, commit.request.ifMatch = response.etag →
      commit.base = response.document

/-- The replica that a `GET` between its two reads has to read again. -/
def Phase.reading : Phase Config → Option Nat
  | .gotContent i _ _ | .gotVersion i _ => some i
  | _ => none

/-- The condition on a step: no replica takes up another document while a `GET` is between its two
reads there. -/
def Undisturbed (w : World Config) : Step → Prop
  | .swap call => ∀ request write, w.calls call = .swapping request write →
      ∀ other, (w.calls other).reading = some request.replica →
        write.updated = (w.replicas request.replica).document
  | .reswap call => ∀ i raw config, w.calls call = .reloaded i raw config →
      ∀ other, (w.calls other).reading = some i → raw = (w.replicas i).document
  | _ => True

/-! ## The invariant -/

def Phase.Halfway (w : World Config) : Phase Config → Prop
  | .gotContent i _ document => document = (w.replicas i).document
  | .gotVersion i version => version = (w.replicas i).version
  | _ => True

/-- Every `GET` under way will answer, and every answer was, as promised. -/
structure Described (codec : Codec Config) (w : World Config) : Prop where
  halfway : ∀ call, (w.calls call).Halfway w
  described : ∀ response ∈ w.responses, response.etag = codec.version response.document

variable {phase : Phase Config}

theorem Phase.Halfway.congr {w w' : World Config} (halfway : phase.Halfway w)
    (hsame : ∀ i, phase.reading = some i → (w'.replicas i).document = (w.replicas i).document ∧
      (w'.replicas i).version = (w.replicas i).version) : phase.Halfway w' := by
  cases phase
  case gotContent i config document => exact halfway.trans (hsame i rfl).1.symm
  case gotVersion i version => exact halfway.trans (hsame i rfl).2.symm
  all_goals trivial

namespace Described

variable {codec : Codec Config} {w : World Config}

variable (described : Described codec w)

include described

theorem moved (call : Nat) (halfway : phase.Halfway w) : Described codec (w.moved call phase) := by
  refine { described with halfway := fun other => ?_ }
  by_cases hother : other = call
  · subst hother
    rw [World.moved_calls_self]
    exact halfway.congr fun _ _ => ⟨rfl, rfl⟩
  · rw [World.moved_calls_of_ne _ _ hother]
    exact (described.halfway other).congr fun _ _ => ⟨rfl, rfl⟩

/-- A replica takes up a document that no `GET` under way can tell from the one it read. -/
theorem changed {i : Nat} {replica : Replica Config}
    (hsame : ∀ call, (w.calls call).reading = some i →
      replica.document = (w.replicas i).document ∧ replica.version = (w.replicas i).version) :
    Described codec (w.changed i replica) := by
  refine { described with halfway := fun call => (described.halfway call).congr fun j hj => ?_ }
  by_cases hij : j = i
  · subst hij
    rw [World.changed_replicas_self]
    exact hsame call hj
  · rw [World.changed_replicas_of_ne _ _ hij]
    exact ⟨rfl, rfl⟩

theorem enter (i call : Nat) : Described codec (w.enter i call) :=
  described.changed fun _ _ => ⟨rfl, rfl⟩

theorem exit (i : Nat) : Described codec (w.exit i) :=
  described.changed fun _ _ => ⟨rfl, rfl⟩

theorem relock (lock : Option Nat) : Described codec { w with lock := lock } :=
  { described with
    halfway := fun call => (described.halfway call).congr fun _ _ => ⟨rfl, rfl⟩ }

theorem stores (commit : Commit) (reported : Bool) : Described codec (w.stores commit reported) :=
  { described with
    halfway := fun call => (described.halfway call).congr fun _ _ => ⟨rfl, rfl⟩ }

theorem responded {response : Response}
    (hresponse : response.etag = codec.version response.document) :
    Described codec (w.responded response) where
  halfway := fun call => (described.halfway call).congr fun _ _ => ⟨rfl, rfl⟩
  described := by
    refine List.forall_mem_append.2 ⟨described.described, ?_⟩
    rwa [List.forall_mem_singleton]

end Described

/-! ## One step -/

section Steps

variable {codec : Codec Config} {w : World Config}

section

variable (ordered : Ordered codec w) (described : Described codec w)

include described

theorem getting_described (call i : Nat) (kind : GetKind) :
    Described codec (Step.getting codec w call i kind) := by
  cases kind with
  | contentFirst => exact described.moved call rfl
  | versionFirst =>
    rw [Step.getting]
    split
    · exact described.moved call rfl
    · exact described
  | whole => exact described.responded rfl

include ordered

theorem swapped_described {call : Nat} (undisturbed : Undisturbed w (.swap call)) :
    Described codec (Step.swapped codec w call) := by
  rw [Step.swapped]
  split
  · next request write hphase =>
      refine (described.changed fun other hreading => ?_).moved call trivial
      have hsame := undisturbed request write hphase other hreading
      exact ⟨hsame, (congrArg codec.version hsame).trans (ordered.version _).symm⟩
  · exact described

theorem reswapped_described {call : Nat} (undisturbed : Undisturbed w (.reswap call)) :
    Described codec (Step.reswapped codec w call) := by
  rw [Step.reswapped]
  split
  · next i raw config hphase =>
      refine (described.changed fun other hreading => ?_).moved call trivial
      have hsame := undisturbed i raw config hphase other hreading
      exact ⟨hsame, (congrArg codec.version hsame).trans (ordered.version _).symm⟩
  · exact described

theorem got_described (call : Nat) : Described codec (Step.got w call) := by
  have halfway := described.halfway call
  rw [Step.got]
  split
  · next i config document hphase =>
      rw [hphase] at halfway
      split
      · refine (described.responded ?_).moved call trivial
        rw [halfway]
        exact ordered.version i
      · exact described
  · next i version hphase =>
      rw [hphase] at halfway
      refine (described.responded ?_).moved call trivial
      exact halfway.trans (ordered.version i)
  · exact described

theorem act_described (step : Step) (undisturbed : Undisturbed w step) :
    Described codec (step.act codec w) := by
  cases step with
  | submit call request =>
    rw [Step.act]
    split
    · exact described.moved call trivial
    · exact described
  | acquire call works =>
    rw [Step.act, Step.acquired]
    repeat' split
    · exact described.moved call trivial
    · exact (described.relock _).moved call trivial
    all_goals exact described
  | prepare call works =>
    rw [Step.act, Step.preparing]
    repeat' split
    · exact described.moved call trivial
    · exact described.moved call trivial
    · exact described.moved call trivial
    · exact described
  | enter call =>
    rw [Step.act, Step.entering]
    repeat' split
    · exact (described.enter _ call).moved call trivial
    all_goals exact described
  | compare call works =>
    rw [Step.act, Step.compared]
    repeat' split
    · exact described.moved call trivial
    · exact (described.exit _).moved call trivial
    · exact (described.exit _).moved call trivial
    · exact described.moved call trivial
    · exact described
  | put call works =>
    rw [Step.act, Step.written]
    repeat' split
    · exact (described.exit _).moved call trivial
    · exact (described.stores _ _).moved call trivial
    · exact described
  | swap call => exact swapped_described ordered described undisturbed
  | leave call =>
    rw [Step.act, Step.left]
    split
    · exact (described.relock none).moved call trivial
    · exact described
  | reload call i =>
    rw [Step.act]
    split
    · exact (described.enter i call).moved call trivial
    · exact described
  | reread call works =>
    rw [Step.act, Step.rereading]
    repeat' split
    · exact (described.exit _).moved call trivial
    · exact (described.exit _).moved call trivial
    · exact (described.exit _).moved call trivial
    · exact described.moved call trivial
    · exact described
  | reswap call => exact reswapped_described ordered described undisturbed
  | get call i kind =>
    rw [Step.act]
    split
    · exact getting_described described call i kind
    · exact described
  | finishGet call => exact got_described ordered described call

end

/-! ## Whole runs -/

/-- An update sent with a version is applied to the document of that version only. -/
theorem Ordered.base_of_ifMatch (ordered : Ordered codec w) {commit : Commit}
    (hmem : commit ∈ w.commits) {document : Document}
    (hmatch : commit.request.ifMatch = codec.version document)
    (hsent : commit.request.ifMatch ≠ "") : commit.base = document := by
  rcases (ordered.correct commit hmem).matched with hempty | hbase
  · exact absurd hempty hsent
  · exact codec.version_injective (hbase.symm.trans hmatch)

/-- In every run in which no replica takes up another document between the two reads of a `GET`,
every `ETag` is the version of the document its body was taken from. -/
theorem etags_honest {start : World Config} (initial : start.Initial codec)
    (hnone : start.responses = []) (steps : List Step)
    (undisturbed : Meets (Step.act codec) Undisturbed steps start) :
    EtagsHonest codec (runAll (Step.act codec) steps start) := by
  have hstart : Described codec start := by
    refine ⟨fun call => by rw [initial.calls call]; trivial, fun response hmem => ?_⟩
    rw [hnone] at hmem
    exact absurd hmem List.not_mem_nil
  obtain ⟨ordered, described⟩ := invariant_runAll
    (P := fun w => Ordered codec w ∧ Described codec w)
    (fun w step kept hstep => ⟨act_ordered kept.1 step, act_described kept.1 kept.2 step hstep⟩)
    ⟨initial.ordered, hstart⟩ undisturbed
  refine ⟨described.described, fun response hmem hetag commit hcommit hmatch => ?_⟩
  have hdescribed := described.described response hmem
  exact ordered.base_of_ifMatch hcommit (hmatch.trans hdescribed) (hmatch ▸ hetag)

end Steps

/-! ## A body and the next body's `ETag` -/

/-- A `GET` on the first replica with an edit between its two reads. -/
def readAcross (request : Request) : List Step :=
  .get 0 0 .contentFirst :: editSteps 1 request ++ [.finishGet 0]

def replacement (replica : Nat) (raw : Document) (ifMatch : String) : Request :=
  ⟨replica, .replace raw, ifMatch⟩

def proxied : Document := oneFeed "upstream: https://r"

/-- An edit through another replica does not disturb the `GET`. -/
theorem etags_honest_elsewhere :
    (settled hosted).Initial plainCodec ∧
      Meets (Step.act plainCodec) Undisturbed (readAcross (replacement 1 proxied ""))
        (settled hosted) ∧
      EtagsHonest plainCodec (runAll (Step.act plainCodec)
        (readAcross (replacement 1 proxied "")) (settled hosted)) := by
  have undisturbed : Meets (Step.act plainCodec) Undisturbed
      (readAcross (replacement 1 proxied "")) (settled hosted) := by
    refine ⟨trivial, trivial, trivial, trivial, trivial, trivial, trivial, ?_, trivial, trivial,
      trivial⟩
    intro request write hphase other hreading
    cases hphase
    match other with
    | 0 | 1 | _ + 2 => cases hreading
  exact ⟨settled_initial _, undisturbed, etags_honest (settled_initial _) rfl _ undisturbed⟩

/-- A feed is read while an operator replaces the document on the same replica: the body is the old
one, the `ETag` the new one's.  The reader's conditional update then goes through and undoes the
operator's. -/
theorem stale_body_fresh_etag :
    (settled hosted).Initial plainCodec ∧
      ¬ EtagsHonest plainCodec (runAll (Step.act plainCodec)
        (readAcross (replacement 0 proxied "") ++
          editSteps 2 (replacement 0 (hosted ++ "# mine\n") proxied))
        (settled hosted)) := by
  refine ⟨settled_initial _, fun honest => ?_⟩
  have hbase : proxied = hosted :=
    honest.conditional ⟨hosted, proxied⟩ (List.mem_singleton_self _) (by decide)
      ⟨2, replacement 0 (hosted ++ "# mine\n") proxied, proxied, hosted ++ "# mine\n"⟩
      (List.mem_cons_of_mem _ (List.mem_singleton_self _)) rfl
  exact absurd hbase (by decide)

end FondacoFormal.Admin
