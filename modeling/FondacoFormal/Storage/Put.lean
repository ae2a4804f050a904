import FondacoFormal.Library.Runs
import FondacoFormal.Pipeline.Publish

/-!
# `Put` on the two blob stores

The directory store spools to a temporary file, verifies it and renames it into place.
-/

namespace FondacoFormal.Storage

open Library Library.Runs Pipeline

abbrev Bytes := List UInt8

inductive Backend where
  | fs
  | s3
  deriving DecidableEq, Repr

/-- `api.PutOpts`. -/
structure PutOpts where
  sha256 : String := ""
  size : Int := 0
  contentType : String := ""
  deriving DecidableEq, Repr

/-- Why `Put` failed. -/
inductive PutError where
  | invalidKey
  | read
  | size
  | checksumMismatch
  | io
  deriving DecidableEq, Repr

structure Attrs where
  sha256 : String
  contentType : String
  deriving DecidableEq, Repr

/-- `strings.EqualFold`, one side being hexadecimal. -/
def equalFold (a b : String) : Bool :=
  a.toList.map Char.toLower = b.toList.map Char.toLower

def verify (hash : Bytes → String) (opts : PutOpts) (content : Bytes) : Option PutError :=
  if 0 < opts.size && (content.length : Int) ≠ opts.size then some .size
  else if opts.sha256 ≠ "" && !equalFold opts.sha256 (hash content) then some .checksumMismatch
  else none

/-- `keyPath` accepts the key. -/
def keyPath (key : String) : Bool :=
  !(key = "" || key.toList.head? = some '/' || key.toList.getLast? = some '/') &&
    !(pathClean key ≠ key || pathClean key = "." || pathClean key = ".." ||
      ['.', '.', '/'].isPrefixOf (pathClean key).toList)

/-- `putContentType`. -/
def putContentType (declared : String) : String :=
  if declared = "" then "application/octet-stream" else declared

def blobKey (sha256 : String) : String :=
  "blobs/sha256/" ++ sha256

/-! ## Calls -/

/-- What a call was given; `content` is what it read. -/
structure PutCall where
  key : String
  content : Bytes
  opts : PutOpts
  deriving DecidableEq, Repr

inductive PutPhase where
  | idle
  | spooled (call : PutCall)
  | verified (call : PutCall)
  | described (call : PutCall)
  /-- s3: `PutObject` comes next. -/
  | uploading (call : PutCall)
  | uploaded (call : PutCall)
  /-- s3: `RemoveObject` comes next. -/
  | rejected (call : PutCall) (error : PutError)
  /-- s3: `CopyObject` reads the object next. -/
  | attaching (call : PutCall)
  /-- s3: `CopyObject` writes what it read next. -/
  | copying (call : PutCall) (source : Bytes)
  | returned (call : PutCall) (result : Except PutError Unit)

def PutPhase.call : PutPhase → Option PutCall
  | idle => none
  | spooled call | verified call | described call | uploading call | uploaded call
  | rejected call _ | attaching call | copying call _ | returned call _ => some call

structure Storing where
  /-- What `Get` opens. -/
  data : Table String Bytes
  attrs : Table String Attrs
  calls : List PutPhase

namespace Storing

def moved (w : Storing) (i : Nat) (phase : PutPhase) : Storing :=
  { w with calls := w.calls.set i phase }

/-- `PutObject`, or the write of `CopyObject`: the object with its metadata. -/
def putObject (w : Storing) (key : String) (bytes : Bytes) (attrs : Attrs) : Storing :=
  { w with data := w.data.put key bytes, attrs := w.attrs.put key attrs }

/-- `RemoveObject`. -/
def removeObject (w : Storing) (key : String) : Storing :=
  { w with
    data := w.data.keep fun other _ => other ≠ key
    attrs := w.attrs.keep fun other _ => other ≠ key }

def begin (backend : Backend) (i : Nat) (call : PutCall) (readable : Bool) (w : Storing) :
    Storing :=
  match backend with
  | .fs =>
    if !keyPath call.key then w.moved i (.returned call (.error .invalidKey))
    else if !readable then w.moved i (.returned call (.error .read))
    else w.moved i (.spooled call)
  | .s3 =>
    if readable then w.moved i (.uploading call)
    else w.moved i (.returned call (.error .read))

/-- The next step of a call; `ok` says whether the file operation or the request succeeds. -/
def next (hash : Bytes → String) (i : Nat) (ok : Bool) (w : Storing) : Storing :=
  match w.calls[i]? with
  | none | some .idle | some (.returned ..) => w
  | some (.spooled call) =>
    match verify hash call.opts call.content with
    | some error => w.moved i (.returned call (.error error))
    | none => w.moved i (if ok then .verified call else .returned call (.error .io))
  | some (.verified call) =>
    if ok then
      { w with attrs := w.attrs.put call.key ⟨hash call.content, call.opts.contentType⟩ }.moved i
        (.described call)
    else w.moved i (.returned call (.error .io))
  | some (.described call) =>
    if ok then
      { w with data := w.data.put call.key call.content }.moved i (.returned call (.ok ()))
    else w.moved i (.returned call (.error .io))
  | some (.uploading call) =>
    if ok then
      (w.putObject call.key call.content ⟨"", putContentType call.opts.contentType⟩).moved i
        (.uploaded call)
    else w.moved i (.returned call (.error .io))
  | some (.uploaded call) =>
    match verify hash call.opts call.content with
    | some error => w.moved i (.rejected call error)
    | none => w.moved i (.attaching call)
  | some (.rejected call error) =>
    -- The outcome of the removal is not looked at.
    (if ok then w.removeObject call.key else w).moved i (.returned call (.error error))
  | some (.attaching call) =>
    match w.data.find call.key with
    | some source => w.moved i (if ok then .copying call source else .returned call (.error .io))
    | none => w.moved i (.returned call (.error .io))
  | some (.copying call source) =>
    if ok then
      (w.putObject call.key source
        ⟨hash call.content, putContentType call.opts.contentType⟩).moved i (.returned call (.ok ()))
    else w.moved i (.returned call (.error .io))

end Storing

inductive PutOp where
  | begin (i : Nat) (call : PutCall) (readable : Bool)
  | next (i : Nat) (ok : Bool)

def PutOp.run (hash : Bytes → String) (backend : Backend) : PutOp → Storing → Storing
  | begin i call readable, w =>
    match w.calls[i]? with
    | some .idle | some (.returned ..) => w.begin backend i call readable
    | _ => w
  | next i ok, w => w.next hash i ok

/-! ## Verified content -/

section Verified

variable (hash : Bytes → String) (digest : String) (first : Option Bytes)

def Acceptable (bytes : Bytes) : Prop :=
  equalFold digest (hash bytes) = true ∨ first = some bytes

/-- What a call under way on the key of the digest can still write is acceptable. -/
def PutPhase.Fine : PutPhase → Prop
  | idle | returned .. => True
  | spooled call => call.key = blobKey digest → call.opts.sha256 = digest
  | verified call | described call | uploading call | uploaded call | attaching call =>
    call.key = blobKey digest →
      verify hash call.opts call.content = none ∧ equalFold digest (hash call.content) = true
  | rejected call _ => call.key ≠ blobKey digest
  | copying call source => call.key = blobKey digest →
      verify hash call.opts call.content = none ∧ Acceptable hash digest first source

structure Sound (w : Storing) : Prop where
  data : ∀ bytes, w.data.find (blobKey digest) = some bytes → Acceptable hash digest first bytes
  calls : ∀ phase ∈ w.calls, phase.Fine hash digest first

/--
A call on the key of the digest asks for that digest; on S3 its bytes have it,
and their number is the one announced.
-/
def Matching (backend : Backend) : PutOp → Prop
  | .begin _ call _ => call.key = blobKey digest → call.opts.sha256 = digest ∧
      (backend = .s3 → verify hash call.opts call.content = none)
  | .next .. => True

instance (backend : Backend) : (op : PutOp) → Decidable (Matching hash digest backend op)
  | .begin .. => inferInstanceAs (Decidable (_ → _ ∧ (_ → _)))
  | .next .. => inferInstanceAs (Decidable True)

end Verified

theorem verify_digest {hash : Bytes → String} {digest : String} {opts : PutOpts} {content : Bytes}
    (hdigest : digest ≠ "") (hopts : opts.sha256 = digest)
    (hverify : verify hash opts content = none) : equalFold digest (hash content) = true := by
  unfold verify at hverify
  split_ifs at hverify with hsize hsum
  rw [hopts] at hsum
  simpa [hdigest] using hsum

variable {backend : Backend} {phase : PutPhase} {call : PutCall}

namespace Sound

variable {hash : Bytes → String} {digest : String} {first : Option Bytes} {w : Storing}

variable (sound : Sound hash digest first w)

include sound

theorem moved (i : Nat) (hfine : phase.Fine hash digest first) :
    Sound hash digest first (w.moved i phase) where
  data := sound.data
  calls := by
    intro other hmem
    rcases List.mem_or_eq_of_mem_set hmem with hold | rfl
    · exact sound.calls other hold
    · exact hfine

theorem wrote {key : String} {bytes : Bytes} {attrs : Table String Attrs}
    (hbytes : key = blobKey digest → Acceptable hash digest first bytes) :
    Sound hash digest first { w with data := w.data.put key bytes, attrs := attrs } where
  data := by
    intro found hfind
    rw [Table.find_put] at hfind
    split at hfind
    · rename_i hkey
      cases hfind
      exact hbytes hkey.symm
    · exact sound.data found hfind
  calls := sound.calls

theorem removed (key : String) :
    Sound hash digest first (w.removeObject key) where
  data := by
    intro found hfind
    exact sound.data found (Table.find_of_find_keep hfind)
  calls := sound.calls

theorem begin (hdigest : digest ≠ "") {i : Nat} {readable : Bool}
    (matching : Matching hash digest backend (.begin i call readable)) :
    Sound hash digest first (w.begin backend i call readable) := by
  unfold Storing.begin
  cases backend with
  | fs =>
    dsimp only
    split
    · exact sound.moved i trivial
    · split
      · exact sound.moved i trivial
      · exact sound.moved i fun hkey => (matching hkey).1
  | s3 =>
    dsimp only
    split
    · refine sound.moved i fun hkey => ?_
      obtain ⟨hopts, hverify⟩ := matching hkey
      exact ⟨hverify rfl, verify_digest hdigest hopts (hverify rfl)⟩
    · exact sound.moved i trivial

theorem next (hdigest : digest ≠ "") (i : Nat) (ok : Bool) :
    Sound hash digest first (w.next hash i ok) := by
  have fine : ∀ phase, w.calls[i]? = some phase → phase.Fine hash digest first :=
    fun phase hphase => sound.calls phase (List.mem_of_getElem? hphase)
  unfold Storing.next
  split
  · exact sound
  · exact sound
  · exact sound
  · -- Spooled: what passes the checks has the digest.
    rename_i call hphase
    split
    · exact sound.moved i trivial
    · rename_i hverify
      refine sound.moved i ?_
      split
      · exact fun hkey => ⟨hverify, verify_digest hdigest (fine _ hphase hkey) hverify⟩
      · trivial
  · rename_i call hphase
    have hfine := fine _ hphase
    split
    · refine moved ?_ i ?_
      · exact ⟨sound.data, sound.calls⟩
      · exact hfine
    · exact sound.moved i trivial
  · rename_i call hphase
    split
    · exact (sound.wrote fun hkey => .inl (fine _ hphase hkey).2).moved i trivial
    · exact sound.moved i trivial
  · rename_i call hphase
    have hfine := fine _ hphase
    split
    · refine (sound.wrote fun hkey => .inl (hfine hkey).2).moved i ?_
      exact hfine
    · exact sound.moved i trivial
  · -- Uploaded: a call on the key of the digest passes the checks.
    rename_i call hphase
    have hfine := fine _ hphase
    split
    · rename_i error hverify
      refine sound.moved i fun hkey => ?_
      rw [(hfine hkey).1] at hverify
      cases hverify
    · refine sound.moved i ?_
      exact hfine
  · refine moved ?_ i trivial
    split
    · exact sound.removed _
    · exact sound
  · -- The copy reads whatever object is there now.
    rename_i call hphase
    split
    · rename_i source hfind
      refine sound.moved i ?_
      split
      · intro hkey
        rw [hkey] at hfind
        exact ⟨(fine _ hphase hkey).1, sound.data source hfind⟩
      · trivial
    · exact sound.moved i trivial
  · rename_i call source hphase
    split
    · exact (sound.wrote fun hkey => (fine _ hphase hkey).2).moved i trivial
    · exact sound.moved i trivial

theorem step (hdigest : digest ≠ "") (op : PutOp) (matching : Matching hash digest backend op) :
    Sound hash digest first (op.run hash backend w) := by
  cases op with
  | begin i call readable =>
    simp only [PutOp.run]
    split
    · exact sound.begin hdigest matching
    · exact sound.begin hdigest matching
    · exact sound
  | next i ok => exact sound.next hdigest i ok

/-- A call whose content fails the checks never writes under the key of the digest. -/
theorem refused {i : Nat} {ok : Bool} (hphase : w.calls[i]? = some phase)
    (hcall : phase.call = some call) (hrefused : verify hash call.opts call.content ≠ none) :
    (w.next hash i ok).data.find (blobKey digest) = w.data.find (blobKey digest) := by
  have hfine : phase.Fine hash digest first := sound.calls phase (List.mem_of_getElem? hphase)
  have hput : ∀ bytes, call.key ≠ blobKey digest →
      (w.data.put call.key bytes).find (blobKey digest) = w.data.find (blobKey digest) :=
    fun bytes hne => Table.find_put_of_ne _ _ hne.symm
  unfold Storing.next
  rw [hphase]
  cases phase with
  | idle => cases hcall
  | returned other result => rfl
  | spooled other | verified other | uploaded other | attaching other =>
    dsimp only
    split <;> rfl
  | described other | uploading other | copying other source =>
    cases hcall
    dsimp only
    split
    · exact hput _ fun hkey => hrefused (hfine hkey).1
    · rfl
  | rejected other error =>
    cases hcall
    dsimp only
    split
    · exact Table.find_keep_of_ne w.data (Ne.symm hfine)
    · rfl

end Sound

/-! ## Every run -/

/--
On either store, with any number of calls in any interleaving: what is stored
under the key of a digest has that digest or was stored there at first, and no
step of a call whose size or digest does not match changes it.  On S3 this needs
calls whose content matches.
-/
theorem content_addressed_put_safe (hash : Bytes → String) (backend : Backend) (digest : String)
    (hdigest : digest ≠ "") (start : Storing) (hidle : ∀ phase ∈ start.calls, phase = .idle)
    (ops : List PutOp) (matching : Meets (PutOp.run hash backend)
      (fun _ op => Matching hash digest backend op) ops start) :
    (∀ bytes,
      (runAll (PutOp.run hash backend) ops start).data.find (blobKey digest) = some bytes →
        equalFold digest (hash bytes) = true ∨ start.data.find (blobKey digest) = some bytes) ∧
      ∀ i ok phase call, (runAll (PutOp.run hash backend) ops start).calls[i]? = some phase →
        phase.call = some call → verify hash call.opts call.content ≠ none →
          ((PutOp.next i ok).run hash backend
              (runAll (PutOp.run hash backend) ops start)).data.find (blobKey digest) =
            (runAll (PutOp.run hash backend) ops start).data.find (blobKey digest) := by
  have hstart : Sound hash digest (start.data.find (blobKey digest)) start := by
    refine ⟨fun bytes hfind => .inr hfind, ?_⟩
    intro phase hmem
    rw [hidle phase hmem]
    trivial
  have hstep : ∀ w op, Sound hash digest (start.data.find (blobKey digest)) w →
      Matching hash digest backend op →
        Sound hash digest (start.data.find (blobKey digest)) (PutOp.run hash backend op w) :=
    fun w op sound hop => sound.step hdigest op hop
  have sound := invariant_runAll hstep hstart matching
  exact ⟨sound.data, fun i ok phase call hphase hcall hrefused =>
    sound.refused hphase hcall hrefused⟩

def sampleHash (bytes : Bytes) : String :=
  if bytes = [1] then "aa" else "bb"

/-- A store that holds the content of `aa`. -/
def sampleStoring : Storing where
  data := Table.put ∅ (blobKey "aa") [1]
  attrs := ∅
  calls := [.idle, .idle]

def foreignPut : PutCall :=
  ⟨blobKey "aa", [2], { sha256 := "aa", size := 1 }⟩

def genuinePut : PutCall :=
  ⟨blobKey "aa", [1], { sha256 := "aa", size := 1 }⟩

def putSteps : List PutOp :=
  [.begin 0 foreignPut true, .begin 1 genuinePut true, .next 1 true, .next 0 true, .next 1 true,
    .next 1 true]

theorem content_addressed_put_safe_fs :
    (runAll (PutOp.run sampleHash .fs) putSteps sampleStoring).calls[0]? =
        some (.returned foreignPut (.error .checksumMismatch)) ∧
      ∀ bytes, (runAll (PutOp.run sampleHash .fs) putSteps sampleStoring).data.find (blobKey "aa") =
        some bytes → equalFold "aa" (sampleHash bytes) = true ∨
          sampleStoring.data.find (blobKey "aa") = some bytes := by
  refine ⟨rfl, ?_⟩
  refine (content_addressed_put_safe sampleHash .fs "aa" (by decide) sampleStoring ?_ putSteps ?_).1
  · simp [sampleStoring]
  · decide +kernel

theorem upload_replaces_then_removes :
    equalFold "aa" (sampleHash [1]) = true ∧ equalFold "aa" (sampleHash [2]) = false ∧
      sampleStoring.data.find (blobKey "aa") = some [1] ∧
      (runAll (PutOp.run sampleHash .s3) [.begin 0 foreignPut true, .next 0 true]
        sampleStoring).data.find (blobKey "aa") = some [2] ∧
      (runAll (PutOp.run sampleHash .s3)
        [.begin 0 foreignPut true, .next 0 true, .next 0 true, .next 0 true]
        sampleStoring).data.find (blobKey "aa") = none ∧
      (runAll (PutOp.run sampleHash .s3)
        [.begin 0 foreignPut true, .next 0 true, .next 0 true, .next 0 true]
        sampleStoring).calls[0]? = some (.returned foreignPut (.error .checksumMismatch)) :=
  ⟨by decide, by decide, by decide +kernel, by decide +kernel, by decide +kernel, rfl⟩

end FondacoFormal.Storage
