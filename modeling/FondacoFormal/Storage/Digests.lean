import FondacoFormal.Storage.Put

/-!
# The digest beside the bytes

Both stores write an object in two steps: fs renames the file of attributes and then the file
of data, s3 uploads the object and then copies it onto itself with its digest.
-/

namespace FondacoFormal.Storage

open Library Library.Runs

/-! ## What is reported -/

/-- `Get`: the bytes and the digest reported with them, which is the one of `Stat`. -/
def Storing.get (w : Storing) (key : String) : Option (Bytes × String) :=
  (w.data.find key).map fun bytes =>
    (bytes, ((w.attrs.find key).map Attrs.sha256).getD "")

def PutPhase.underWay : PutPhase → Option PutCall
  | idle | returned .. => none
  | spooled call | verified call | described call | uploading call | uploaded call
  | rejected call _ | attaching call | copying call _ => some call

def Storing.AtRest (w : Storing) (key : String) : Prop :=
  ∀ phase ∈ w.calls, (phase.underWay.all fun call => call.key ≠ key) = true
  deriving Decidable

/-! ## Steps -/

/-- The next step of a call, `CopyObject` reading and writing at once. -/
def Storing.advance (hash : Bytes → String) (i : Nat) (ok : Bool) (w : Storing) : Storing :=
  match w.calls[i]? with
  | some (.attaching _) => (w.next hash i ok).next hash i ok
  | _ => w.next hash i ok

inductive CrashOp where
  | begin (i : Nat) (call : PutCall) (readable : Bool)
  | next (i : Nat) (ok : Bool)
  | crash (i : Nat)

def CrashOp.run (hash : Bytes → String) (backend : Backend) : CrashOp → Storing → Storing
  | begin i call readable, w => (PutOp.begin i call readable).run hash backend w
  | next i ok, w => w.advance hash i ok
  | crash i, w => w.moved i .idle

/-! ## The condition -/

def PutPhase.shares (key : String) (content : Bytes) (phase : PutPhase) : Bool :=
  phase.underWay.all fun call => call.key ≠ key || call.content = content

/-- The call may end here: it is not between its two renames on the key, or the bytes there
have its digest. -/
def Storing.mayEnd (hash : Bytes → String) (key : String) (i : Nat) (w : Storing) : Bool :=
  match w.calls[i]? with
  | some (.described call) =>
    call.key ≠ key || (w.data.find key).all fun bytes => hash bytes = hash call.content
  | _ => true

/--
A call on the key starts while only calls with its bytes are under way there, and no call
fails or crashes between its two renames over bytes of another digest.
-/
def Apart (hash : Bytes → String) (key : String) (w : Storing) : CrashOp → Prop
  | .begin _ call _ => call.key = key → ∀ phase ∈ w.calls, phase.shares key call.content = true
  | .next i ok => ok = false → w.mayEnd hash key i = true
  | .crash i => w.mayEnd hash key i = true

instance (hash : Bytes → String) (key : String) (w : Storing) :
    (op : CrashOp) → Decidable (Apart hash key w op)
  | .begin .. => inferInstanceAs (Decidable (_ → ∀ phase ∈ w.calls, _))
  | .next .. => inferInstanceAs (Decidable (_ → _))
  | .crash _ => inferInstanceAs (Decidable (_ = true))

/-- A step of a call ends it or goes on with it. -/
def PutPhase.Follows (next phase : PutPhase) : Prop :=
  next.underWay = none ∨ next.underWay = phase.underWay

theorem PutPhase.Follows.work {next phase : PutPhase} (hnext : next.Follows phase) {call : PutCall}
    (hcall : next.underWay = some call) : phase.underWay = some call := by
  obtain hnone | hsame := hnext
  · rw [hnone] at hcall
    cases hcall
  · exact hsame.symm.trans hcall

/-! ## The invariant -/

section Invariant

variable (hash : Bytes → String) (key : String)

def Describes (content : Bytes) (attrs : Option Attrs) : Prop :=
  ∀ a, attrs = some a → a.sha256 = "" ∨ a.sha256 = hash content

def Agreeing (bytes : Option Bytes) (attrs : Option Attrs) : Prop :=
  ∀ content, bytes = some content → Describes hash content attrs

/-- What a call on the key has written so far is there, or was written again the same. -/
def PutPhase.Tidy (bytes : Option Bytes) (attrs : Option Attrs) : PutPhase → Prop
  | described call => call.key = key → Describes hash call.content attrs
  | uploaded call | attaching call =>
    call.key = key → ∀ content, bytes = some content → content = call.content
  | copying .. => False
  | idle | spooled _ | verified _ | uploading _ | rejected .. | returned .. => True

/-- What holds between any two steps, of what is stored under the key and the calls. -/
structure Tidy (bytes : Option Bytes) (attrs : Option Attrs) (calls : List PutPhase) : Prop where
  shares : ∀ phase ∈ calls, ∀ call, phase.underWay = some call → call.key = key →
    ∀ other ∈ calls, other.shares key call.content = true
  phases : ∀ phase ∈ calls, phase.Tidy hash key bytes attrs
  agrees : Agreeing hash bytes attrs ∨ ∃ call, .described call ∈ calls ∧ call.key = key

end Invariant

variable {hash : Bytes → String} {key : String}

theorem shares_iff {content : Bytes} {phase : PutPhase} :
    phase.shares key content = true ↔
      ∀ call, phase.underWay = some call → call.key = key → call.content = content := by
  rw [PutPhase.shares]
  cases phase.underWay with
  | none => simp
  | some call =>
    simp only [Option.all_some, Bool.or_eq_true, decide_eq_true_eq, ne_eq, Option.some.injEq]
    constructor
    · rintro h other rfl hkey
      exact h.resolve_left fun hne => hne hkey
    · intro h
      by_cases hkey : call.key = key
      · exact .inr (h call rfl hkey)
      · exact .inl hkey

theorem describes_none (content : Bytes) (contentType : String) :
    Describes hash content (some ⟨"", contentType⟩) := by
  intro a ha
  rw [← Option.some.inj ha]
  exact .inl rfl

theorem describes_hash (content : Bytes) (contentType : String) :
    Describes hash content (some ⟨hash content, contentType⟩) := by
  intro a ha
  rw [← Option.some.inj ha]
  exact .inr rfl

namespace Tidy

variable {bytes bytes' : Option Bytes} {attrs attrs' : Option Attrs} {calls : List PutPhase}
  {i : Nat} {phase next : PutPhase} {call : PutCall}

theorem shares_set (tidy : Tidy hash key bytes attrs calls) (hphase : calls[i]? = some phase)
    (hnext : next.Follows phase) :
    ∀ a ∈ calls.set i next, ∀ c, a.underWay = some c → c.key = key →
      ∀ b ∈ calls.set i next, b.shares key c.content = true := by
  -- Every phase of the new list stands for one of the old list, or has no work.
  have hold : ∀ a ∈ calls.set i next, ∀ c, a.underWay = some c →
      ∃ b ∈ calls, b.underWay = some c := by
    intro a ha c hc
    obtain hmem | rfl := List.mem_or_eq_of_mem_set ha
    · exact ⟨a, hmem, hc⟩
    · exact ⟨phase, List.mem_of_getElem? hphase, hnext.work hc⟩
  intro a ha c hc hkey b hb
  obtain ⟨a', ha', hc'⟩ := hold a ha c hc
  refine shares_iff.2 fun d hd hkey' => ?_
  obtain ⟨b', hb', hd'⟩ := hold b hb d hd
  exact shares_iff.1 (tidy.shares a' ha' c hc' hkey b' hb') d hd' hkey'

theorem mem_set_of_ne {l : List PutPhase} {a b c : PutPhase} (ha : a ∈ l) (hb : l[i]? = some b)
    (hne : a ≠ b) : a ∈ l.set i c := by
  obtain ⟨j, hj⟩ := List.mem_iff_getElem?.1 ha
  have hij : i ≠ j := by
    rintro rfl
    exact hne (Option.some.inj (hj.symm.trans hb))
  exact List.mem_iff_getElem?.2 ⟨j, by rw [List.getElem?_set_ne hij]; exact hj⟩

variable (tidy : Tidy hash key bytes attrs calls)

include tidy

theorem describe (hphase : calls[i]? = some (.verified call)) (hkey : call.key = key)
    (contentType : String) :
    Tidy hash key bytes (some ⟨hash call.content, contentType⟩)
      (calls.set i (.described call)) where
  shares := tidy.shares_set hphase (.inr rfl)
  phases := by
    intro a ha
    obtain hmem | rfl := List.mem_or_eq_of_mem_set ha
    · have hsame := shares_iff.1
        (tidy.shares _ (List.mem_of_getElem? hphase) call rfl hkey a hmem)
      have hbefore := tidy.phases a hmem
      cases a with
      | described other =>
        intro hother
        rw [hsame other rfl hother]
        exact describes_hash _ _
      | uploaded other | attaching other | copying other source => exact hbefore
      | idle | spooled other | verified other | uploading other | rejected other error
      | returned other result => trivial
    · exact fun _ => describes_hash _ _
  agrees := by
    refine .inr ⟨call, ?_, hkey⟩
    exact List.mem_iff_getElem?.2
      ⟨i, List.getElem?_set_self (List.getElem?_eq_some_iff.1 hphase).1⟩

variable (hphase : calls[i]? = some phase)

include hphase

theorem kept (hfits : next.Tidy hash key bytes attrs)
    (hends : ∀ call, phase = .described call → call.key = key → Agreeing hash bytes attrs)
    (hshares : ∀ a ∈ calls.set i next, ∀ c, a.underWay = some c → c.key = key →
      ∀ b ∈ calls.set i next, b.shares key c.content = true) :
    Tidy hash key bytes attrs (calls.set i next) where
  shares := hshares
  phases := by
    intro a ha
    obtain hmem | rfl := List.mem_or_eq_of_mem_set ha
    · exact tidy.phases a hmem
    · exact hfits
  agrees := by
    obtain hagrees | ⟨call, hmem, hkey⟩ := tidy.agrees
    · exact .inl hagrees
    · by_cases hsame : PutPhase.described call = phase
      · exact .inl (hends call hsame.symm hkey)
      · exact .inr ⟨call, mem_set_of_ne hmem hphase hsame, hkey⟩

/-- A call on the key leaves its bytes or none there, and no digest or the one of its bytes. -/
theorem wrote (hcall : phase.underWay = some call) (hkey : call.key = key)
    (hnext : next.Follows phase)
    (hcopying : ∀ call source, next ≠ .copying call source)
    (hbytes : ∀ content, bytes' = some content → content = call.content)
    (hattrs : Describes hash call.content attrs') :
    Tidy hash key bytes' attrs' (calls.set i next) where
  shares := tidy.shares_set hphase hnext
  phases := by
    have hmine : ∀ a ∈ calls.set i next, a.shares key call.content = true := by
      intro a ha
      obtain hmem | rfl := List.mem_or_eq_of_mem_set ha
      · exact tidy.shares phase (List.mem_of_getElem? hphase) call hcall hkey a hmem
      · refine shares_iff.2 fun other hother hkey' => ?_
        cases hcall.symm.trans (hnext.work hother)
        rfl
    intro a ha
    have hsame := shares_iff.1 (hmine a ha)
    cases a with
    | described other =>
      intro hother
      rw [hsame other rfl hother]
      exact hattrs
    | uploaded other | attaching other =>
      intro hother content hcontent
      rw [hsame other rfl hother]
      exact hbytes content hcontent
    | copying other source =>
      obtain hmem | heq := List.mem_or_eq_of_mem_set ha
      · exact (tidy.phases _ hmem).elim
      · exact absurd heq.symm (hcopying other source)
    | idle | spooled other | verified other | uploading other | rejected other error
    | returned other result => trivial
  agrees := by
    refine .inl fun content hcontent => ?_
    rw [hbytes content hcontent]
    exact hattrs

theorem begins (hfree : phase.underWay = none) (hnext : next.underWay = some call)
    (hapart : call.key = key → ∀ a ∈ calls, a.shares key call.content = true)
    (hfits : next.Tidy hash key bytes attrs) :
    Tidy hash key bytes attrs (calls.set i next) := by
  refine tidy.kept hphase hfits (by rintro other rfl; cases hfree) fun a ha c hc hkey b hb => ?_
  refine shares_iff.2 fun d hd hkey' => ?_
  obtain hmemA | rfl := List.mem_or_eq_of_mem_set ha
  · obtain hmemB | rfl := List.mem_or_eq_of_mem_set hb
    · exact shares_iff.1 (tidy.shares a hmemA c hc hkey b hmemB) d hd hkey'
    · rw [hnext] at hd
      cases hd
      exact (shares_iff.1 (hapart hkey' a hmemA) c hc hkey).symm
  · rw [hnext] at hc
    cases hc
    obtain hmemB | rfl := List.mem_or_eq_of_mem_set hb
    · exact shares_iff.1 (hapart hkey b hmemB) d hd hkey'
    · rw [hnext] at hd
      cases hd
      rfl

end Tidy

def Storing.Tidy (hash : Bytes → String) (key : String) (w : Storing) : Prop :=
  Storage.Tidy hash key (w.data.find key) (w.attrs.find key) w.calls

namespace Storing.Tidy

variable {w : Storing} {i : Nat} {phase next : PutPhase} {call : PutCall}

section

variable (tidy : w.Tidy hash key)

include tidy

theorem agrees_at_end (hmay : w.mayEnd hash key i = true)
    (hphase : w.calls[i]? = some (.described call)) (hkey : call.key = key) :
    Agreeing hash (w.data.find key) (w.attrs.find key) := by
  intro content hcontent a ha
  rw [Storing.mayEnd, hphase] at hmay
  simp only [hkey, ne_eq, not_true_eq_false, decide_false, Bool.false_or, hcontent,
    Option.all_some, decide_eq_true_eq] at hmay
  rw [hmay]
  exact tidy.phases _ (List.mem_of_getElem? hphase) hkey a ha

theorem moved (hphase : w.calls[i]? = some phase)
    (hnext : next.Follows phase)
    (hfits : next.Tidy hash key (w.data.find key) (w.attrs.find key))
    (hends : ∀ call, phase = .described call → call.key = key → w.mayEnd hash key i = true) :
    (w.moved i next).Tidy hash key := by
  refine Storage.Tidy.kept tidy hphase hfits (fun call hdescribed hkey => ?_)
    (tidy.shares_set hphase hnext)
  exact tidy.agrees_at_end (hends call hdescribed hkey) (hdescribed ▸ hphase) hkey

variable (next) (hphase : w.calls[i]? = some phase) (hcall : phase.underWay = some call)
  (hnext : next.Follows phase) (hcopying : ∀ call source, next ≠ .copying call source)

include hphase hcall hnext hcopying

theorem elsewhere (hkey : call.key ≠ key) {data : Table String Bytes} {attrs : Table String Attrs}
    (hdata : data.find key = w.data.find key) (hattrs : attrs.find key = w.attrs.find key) :
    (Storing.moved { w with data := data, attrs := attrs } i next).Tidy hash key := by
  have hother : ∀ other, next.underWay = some other → other.key ≠ key := by
    intro other hother
    cases hcall.symm.trans (hnext.work hother)
    exact hkey
  change Storage.Tidy hash key (data.find key) (attrs.find key) (w.calls.set i next)
  rw [hdata, hattrs]
  refine Storage.Tidy.kept tidy hphase ?_ (fun other hdescribed hsame => ?_)
    (tidy.shares_set hphase hnext)
  · cases next with
    | described other | uploaded other | attaching other =>
      exact fun hsame => absurd hsame (hother other rfl)
    | copying other source => exact absurd rfl (hcopying other source)
    | idle | spooled other | verified other | uploading other | rejected other error
    | returned other result => trivial
  · rw [hdescribed] at hcall
    cases hcall
    exact absurd hsame hkey

theorem wrote (data : Table String Bytes) (attrs : Table String Attrs)
    (hdata : ∀ other, other ≠ call.key → data.find other = w.data.find other)
    (hattrs : ∀ other, other ≠ call.key → attrs.find other = w.attrs.find other)
    (hbytes : call.key = key → ∀ content, data.find key = some content → content = call.content)
    (hdescribes : call.key = key → Describes hash call.content (attrs.find key)) :
    (Storing.moved { w with data := data, attrs := attrs } i next).Tidy hash key := by
  by_cases hkey : call.key = key
  · exact Storage.Tidy.wrote tidy hphase hcall hkey hnext hcopying (hbytes hkey) (hdescribes hkey)
  · exact tidy.elsewhere next hphase hcall hnext hcopying hkey (hdata key (Ne.symm hkey))
      (hattrs key (Ne.symm hkey))

theorem stored {bytes : Bytes} {attrs : Attrs} (hbytes : call.key = key → bytes = call.content)
    (hdescribes : Describes hash call.content (some attrs)) :
    (Storing.moved { w with
      data := w.data.put call.key bytes
      attrs := w.attrs.put call.key attrs } i next).Tidy hash key := by
  refine tidy.wrote next hphase hcall hnext hcopying _ _
    (fun other hne => Table.find_put_of_ne _ _ hne)
    (fun other hne => Table.find_put_of_ne _ _ hne) (fun hkey content hcontent => ?_) fun hkey => ?_
  · rw [hkey, Table.find_put_self] at hcontent
    rw [← Option.some.inj hcontent]
    exact hbytes hkey
  · rw [hkey, Table.find_put_self]
    exact hdescribes

end

variable (tidy : w.Tidy hash key)

include tidy

theorem describe (hphase : w.calls[i]? = some (.verified call)) (contentType : String) :
    (Storing.moved
      { w with attrs := w.attrs.put call.key ⟨hash call.content, contentType⟩ } i
      (.described call)).Tidy hash key := by
  by_cases hkey : call.key = key
  · have hafter := Storage.Tidy.describe tidy hphase hkey contentType
    rw [Storing.Tidy, Storing.moved]
    simp only [hkey, Table.find_put_self]
    exact hafter
  · exact tidy.elsewhere (.described call) hphase rfl (.inr rfl) (by simp) hkey rfl
      (Table.find_put_of_ne _ _ (Ne.symm hkey))

theorem attach (hphase : w.calls[i]? = some (.attaching call)) (ok : Bool) :
    ((w.next hash i ok).next hash i ok).Tidy hash key := by
  have hlt := (List.getElem?_eq_some_iff.1 hphase).1
  have hfailed : ∀ error, ((w.moved i (.returned call error)).next hash i ok).Tidy hash key := by
    intro error
    have hread : (w.moved i (.returned call error)).calls[i]? = some (.returned call error) :=
      List.getElem?_set_self hlt
    rw [Storing.next.eq_def, hread]
    exact tidy.moved hphase (.inl rfl) trivial fun _ h => by cases h
  cases hsource : w.data.find call.key with
  | none =>
    have hfirst : w.next hash i ok = w.moved i (.returned call (.error .io)) := by
      rw [Storing.next.eq_def, hphase]
      simp only [hsource]
    rw [hfirst]
    exact hfailed _
  | some source =>
    have hfirst : w.next hash i ok =
        w.moved i (if ok then .copying call source else .returned call (.error .io)) := by
      rw [Storing.next.eq_def, hphase]
      simp only [hsource]
    rw [hfirst]
    cases ok with
    | false => exact hfailed _
    | true =>
      have hread : (w.moved i (.copying call source)).calls[i]? =
          some (.copying call source) := List.getElem?_set_self hlt
      simp only [if_true]
      rw [Storing.next.eq_def, hread]
      simp only [if_true, Storing.putObject, Storing.moved, List.set_set]
      refine tidy.stored (.returned call (.ok ())) hphase rfl (.inl rfl) (by simp) (fun hkey => ?_)
        (describes_hash _ _)
      rw [hkey] at hsource
      exact tidy.phases _ (List.mem_of_getElem? hphase) hkey source hsource

theorem takesStep (ok : Bool) (hphase : w.calls[i]? = some phase)
    (hmay : ok = false → w.mayEnd hash key i = true)
    (hattaching : ∀ call, phase ≠ .attaching call) :
    (w.next hash i ok).Tidy hash key := by
  have hquiet : ∀ next : PutPhase, (∀ call, phase ≠ .described call) →
      next.Follows phase → next.Tidy hash key (w.data.find key) (w.attrs.find key) →
      (w.moved i next).Tidy hash key := fun next hnot hnext hfits =>
    tidy.moved hphase hnext hfits fun call heq => absurd heq (hnot call)
  have hfits := tidy.phases _ (List.mem_of_getElem? hphase)
  rw [Storing.next.eq_def, hphase]
  cases phase with
  | idle | returned => exact tidy
  | spooled call =>
    dsimp only
    split
    · exact hquiet _ (by simp) (.inl rfl) trivial
    · split
      · exact hquiet _ (by simp) (.inr rfl) trivial
      · exact hquiet _ (by simp) (.inl rfl) trivial
  | verified call =>
    dsimp only
    split
    · exact tidy.describe hphase _
    · exact hquiet _ (by simp) (.inl rfl) trivial
  | described call =>
    dsimp only
    split
    · refine tidy.wrote (.returned call (.ok ())) hphase rfl (.inl rfl) (by simp)
        (w.data.put call.key call.content) w.attrs
        (fun other hne => Table.find_put_of_ne _ _ hne) (fun _ _ => rfl)
        (fun hkey content hcontent => ?_) fun hkey => ?_
      · rw [hkey, Table.find_put_self] at hcontent
        exact (Option.some.inj hcontent).symm
      · exact hfits hkey
    · next hok =>
        exact tidy.moved hphase (.inl rfl) trivial
          fun _ _ _ => hmay (Bool.not_eq_true _ ▸ hok)
  | uploading call =>
    dsimp only
    split
    · exact tidy.stored (.uploaded call) hphase rfl (.inr rfl) (by simp) (fun _ => rfl)
        (describes_none _ _)
    · exact hquiet _ (by simp) (.inl rfl) trivial
  | uploaded call =>
    dsimp only
    split
    · exact hquiet _ (by simp) (.inr rfl) trivial
    · exact hquiet _ (by simp) (.inr rfl) hfits
  | rejected call error =>
    dsimp only
    split
    · refine tidy.wrote (.returned call (.error error)) hphase rfl (.inl rfl) (by simp)
        (w.data.keep fun other _ => other ≠ call.key)
        (w.attrs.keep fun other _ => other ≠ call.key) (fun other hne => ?_)
        (fun other hne => ?_) (fun hkey content hcontent => ?_) fun hkey a ha => ?_
      · exact Table.find_keep_of_ne w.data hne
      · exact Table.find_keep_of_ne w.attrs hne
      · rw [Table.find_keep] at hcontent
        simp [hkey] at hcontent
      · rw [Table.find_keep] at ha
        simp [hkey] at ha
    · exact hquiet _ (by simp) (.inl rfl) trivial
  | attaching call => exact absurd rfl (hattaching call)
  | copying call source => exact hfits.elim

theorem advance (ok : Bool) (hmay : ok = false → w.mayEnd hash key i = true) :
    (w.advance hash i ok).Tidy hash key := by
  rw [Storing.advance]
  cases hphase : w.calls[i]? with
  | none =>
    change (w.next hash i ok).Tidy hash key
    rw [Storing.next.eq_def, hphase]
    exact tidy
  | some phase =>
    cases phase with
    | attaching call => exact tidy.attach hphase ok
    | _ => exact tidy.takesStep ok hphase hmay (by simp)

theorem begin {backend : Backend} {readable : Bool}
    (hapart : call.key = key → ∀ phase ∈ w.calls, phase.shares key call.content = true)
    (hphase : w.calls[i]? = some phase) (hfree : phase.underWay = none) :
    (w.begin backend i call readable).Tidy hash key := by
  have hrefused : ∀ error, (w.moved i (.returned call error)).Tidy hash key := fun error =>
    tidy.moved hphase (.inl rfl) trivial fun other heq => by
      rw [heq] at hfree
      cases hfree
  have hstarts : ∀ next : PutPhase, next.underWay = some call →
      next.Tidy hash key (w.data.find key) (w.attrs.find key) →
      (w.moved i next).Tidy hash key := fun next hnext hfits =>
    Storage.Tidy.begins tidy hphase hfree hnext hapart hfits
  rw [Storing.begin.eq_def]
  cases backend with
  | fs =>
    dsimp only
    split
    · exact hrefused _
    · split
      · exact hrefused _
      · exact hstarts _ rfl trivial
  | s3 =>
    dsimp only
    split
    · exact hstarts _ rfl trivial
    · exact hrefused _

theorem step (backend : Backend) (op : CrashOp) (hapart : Apart hash key w op) :
    (op.run hash backend w).Tidy hash key := by
  cases op with
  | begin i call readable =>
    rw [CrashOp.run, PutOp.run]
    split
    · next hphase => exact tidy.begin hapart hphase rfl
    · next hphase => exact tidy.begin hapart hphase rfl
    · exact tidy
  | next i ok => exact tidy.advance ok hapart
  | crash i =>
    rw [CrashOp.run]
    cases hphase : w.calls[i]? with
    | none =>
      have hcalls : w.calls.set i .idle = w.calls :=
        List.set_eq_of_length_le (List.getElem?_eq_none_iff.1 hphase)
      rw [Storing.moved, hcalls]
      exact tidy
    | some phase => exact tidy.moved hphase (.inl rfl) trivial fun _ _ _ => hapart

end Storing.Tidy

/-! ## Every run -/

theorem tidy_of_idle {w : Storing} (hidle : ∀ phase ∈ w.calls, phase = .idle)
    (hagrees : Agreeing hash (w.data.find key) (w.attrs.find key)) : w.Tidy hash key where
  shares := by
    intro phase hphase call hcall
    rw [hidle phase hphase] at hcall
    cases hcall
  phases := by
    intro phase hphase
    rw [hidle phase hphase]
    trivial
  agrees := .inl hagrees

/-- With no call running on the key, what `Get` reports agrees. -/
theorem Storing.Tidy.reports {w : Storing} (tidy : w.Tidy hash key) (hrest : w.AtRest key)
    {bytes : Bytes} {digest : String} (hget : w.get key = some (bytes, digest)) :
    digest = "" ∨ digest = hash bytes := by
  rw [Storing.get, Option.map_eq_some_iff] at hget
  obtain ⟨found, hfound, heq⟩ := hget
  obtain ⟨rfl, rfl⟩ := Prod.ext_iff.1 heq
  have hagrees : Agreeing hash (w.data.find key) (w.attrs.find key) := by
    refine tidy.agrees.resolve_right ?_
    rintro ⟨call, hmem, hkey⟩
    exact of_decide_eq_true (hrest _ hmem) hkey
  cases hattrs : w.attrs.find key with
  | none => exact .inl rfl
  | some a => exact hagrees found hfound a hattrs

/--
On either store, with any number of calls in any interleaving, failures and crashes
included: if no two calls with different bytes overlap on the key, and none fails or
crashes between its two renames over bytes of another digest, then whenever no call is
running on the key the digest reported is empty or the one of the bytes.
-/
theorem digest_describes_bytes (hash : Bytes → String) (backend : Backend) (key : String)
    (start : Storing) (hidle : ∀ phase ∈ start.calls, phase = .idle)
    (hstart : ∀ bytes digest, start.get key = some (bytes, digest) →
      digest = "" ∨ digest = hash bytes)
    (ops : List CrashOp)
    (hapart : Meets (CrashOp.run hash backend) (Apart hash key) ops start) :
    (runAll (CrashOp.run hash backend) ops start).AtRest key →
      ∀ bytes digest,
        (runAll (CrashOp.run hash backend) ops start).get key = some (bytes, digest) →
        digest = "" ∨ digest = hash bytes := by
  have hagrees : Agreeing hash (start.data.find key) (start.attrs.find key) := by
    intro content hcontent a ha
    refine hstart content a.sha256 ?_
    simp [Storing.get, hcontent, ha]
  have hstep : ∀ w op, Storing.Tidy hash key w → Apart hash key w op →
      Storing.Tidy hash key (CrashOp.run hash backend op w) :=
    fun w op tidy hop => tidy.step backend op hop
  have tidy := invariant_runAll hstep (tidy_of_idle hidle hagrees) hapart
  exact fun hrest bytes digest hget => tidy.reports hrest hget

def firstPut : PutCall :=
  ⟨"meta/npm/pkg", [1], {}⟩

def secondPut : PutCall :=
  ⟨"meta/npm/pkg", [2], {}⟩

def emptyStoring : Storing where
  data := ∅
  attrs := ∅
  calls := [.idle, .idle]

def putsInTurn : List CrashOp :=
  [.begin 0 firstPut true, .next 0 true, .next 0 true, .next 0 true, .begin 1 secondPut true,
    .next 1 true, .crash 1]

theorem puts_in_turn_agree :
    (runAll (CrashOp.run sampleHash .fs) putsInTurn emptyStoring).AtRest "meta/npm/pkg" ∧
      ∀ bytes digest,
        (runAll (CrashOp.run sampleHash .fs) putsInTurn emptyStoring).get "meta/npm/pkg" =
            some (bytes, digest) →
          digest = "" ∨ digest = sampleHash bytes := by
  have hrest : (runAll (CrashOp.run sampleHash .fs) putsInTurn emptyStoring).AtRest
      "meta/npm/pkg" := by
    decide +kernel
  exact ⟨hrest, digest_describes_bytes sampleHash .fs "meta/npm/pkg" emptyStoring
    (by simp [emptyStoring]) (by intro bytes digest h; cases h) putsInTurn (by decide +kernel)
    hrest⟩

def renameFails : List CrashOp :=
  [.begin 0 firstPut true, .next 0 true, .next 0 true, .next 0 true, .begin 1 secondPut true,
    .next 1 true, .next 1 true, .next 1 false]

def copiesCross : List CrashOp :=
  [.begin 0 firstPut true, .next 0 true, .begin 1 secondPut true, .next 1 true, .next 0 true,
    .next 1 true, .next 1 true, .next 0 true]

theorem digest_of_other_bytes :
    (runAll (CrashOp.run sampleHash .fs) renameFails emptyStoring).AtRest "meta/npm/pkg" ∧
      (runAll (CrashOp.run sampleHash .fs) renameFails emptyStoring).get "meta/npm/pkg" =
        some ([1], "bb") ∧
      (runAll (CrashOp.run sampleHash .s3) copiesCross emptyStoring).AtRest "meta/npm/pkg" ∧
      (runAll (CrashOp.run sampleHash .s3) copiesCross emptyStoring).get "meta/npm/pkg" =
        some ([2], "aa") ∧
      sampleHash [1] = "aa" ∧ sampleHash [2] = "bb" :=
  ⟨by decide +kernel, by decide +kernel, by decide +kernel, by decide +kernel, by decide,
    by decide⟩

end FondacoFormal.Storage
