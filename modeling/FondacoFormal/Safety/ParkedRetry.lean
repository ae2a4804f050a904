import FondacoFormal.Repl.Acceptance
import Mathlib.Data.Finset.Card

/-!
# Whether retrying parked events comes to an end

`RetryParked` reads the hundred oldest parked events of an origin and tries them one after the
other, up to the first whose statements are refused.
-/

namespace FondacoFormal.Safety

open Library.Runs State Repl

/-! ## The property and the condition -/

section Definitions

variable (a : Applier) (peer : String)

/-- The events one call of `RetryParked` reads. -/
def windowOf (s : SiteState) : List JournalEntry :=
  (parkedEvents s peer 100).map ParkedRow.entry

/-- One call of `RetryParked` with time enough for every event it reads. -/
def retryPass (s : SiteState) : SiteState :=
  (retryParked a peer 100 s).state

def Waiting (s : SiteState) : Prop :=
  ∃ row ∈ s.parked, row.entry.originSite = peer ∧ ∃ effect, dispatch a peer row.entry s = .ok effect

/-- Retrying again and again reaches a fixpoint at which no event is left that could be applied. -/
def RetriesSettle (s : SiteState) : Prop :=
  ∃ n, retryPass a peer ((retryPass a peer)^[n] s) = (retryPass a peer)^[n] s ∧
    ¬ Waiting a peer ((retryPass a peer)^[n] s)

def Recordable (e : JournalEntry) (s : SiteState) : Prop :=
  (a.pg.storedEvent e).isSome = true ∧ ClockFits e.hlc s.clock

/-- Trying the event brings bytes that are not here: those of an eager publish before its
transaction, those of an announced blob within it. -/
def BringsBytes (e : JournalEntry) (s : SiteState) : Prop :=
  ∃ sha, Offers a peer e sha ∧ sha ∉ s.blobs ∧
    (∀ p, e.event = .blobAvailable (.ok p) → Recordable a e s)

def Advances (e : JournalEntry) (s : SiteState) : Prop :=
  BringsBytes a peer e s ∨ Mergeable a e s ∧ RetryFits a peer s e

/-- One of the events gets something done, and the statements of those before it are accepted. -/
def Reaches (entries : List JournalEntry) (s : SiteState) : Prop :=
  ∃ before e after, entries = before ++ e :: after ∧
    (∀ earlier ∈ before, RetryFits a peer s earlier) ∧ Advances a peer e s

/-- A pass comes to an event that gets something done, among the hundred oldest of its origin. -/
def Progresses (s : SiteState) : Prop :=
  Reaches a peer (windowOf peer s) s

end Definitions

/-! ## Trying one event -/

section One

variable {a : Applier} {peer : String} {e : JournalEntry} {s : SiteState}

structure Fetching (a : Applier) (peer : String) (e : JournalEntry) (s t : SiteState) : Prop where
  kept : s.blobs ⊆ t.blobs
  offered : ∀ sha ∈ t.blobs, sha ∈ s.blobs ∨ Offers a peer e sha
  brings : BringsBytes a peer e s → t.blobs ≠ s.blobs
  nothing : ¬ BringsBytes a peer e s → t.blobs = s.blobs

theorem Fetching.of_offered {t : SiteState} (hkept : s.blobs ⊆ t.blobs)
    (hoffered : ∀ sha ∈ t.blobs, sha ∈ s.blobs ∨ Offers a peer e sha)
    (hhere : (∀ p, e.event = .blobAvailable (.ok p) → Recordable a e s) →
      ∀ sha, Offers a peer e sha → sha ∈ t.blobs)
    (hunrecorded : ¬ (∀ p, e.event = .blobAvailable (.ok p) → Recordable a e s) →
      t.blobs = s.blobs) : Fetching a peer e s t := by
  refine ⟨hkept, hoffered, ?_, ?_⟩
  · rintro ⟨sha, hoffers, hmissing, hrecordable⟩ hsame
    exact hmissing (hsame ▸ hhere hrecordable sha hoffers)
  · intro hnone
    by_cases hrecordable : ∀ p, e.event = .blobAvailable (.ok p) → Recordable a e s
    · refine (Finset.Subset.antisymm ?_ hkept)
      intro sha hmem
      rcases hoffered sha hmem with hold | hoffers
      · exact hold
      · by_contra hmissing
        exact hnone ⟨sha, hoffers, hmissing, hrecordable⟩
    · exact hunrecorded hrecordable

theorem retrial_fetching {t : SiteState} (retrial : Retrial a peer e s t)
    (hfits : RetryFits a peer s e) : Fetching a peer e s t := by
  have hrecordable : ∀ p, e.event = .blobAvailable (.ok p) → Recordable a e s := by
    intro p hevent
    have hlate : ¬ ParksEarly a peer e s := by simp [ParksEarly, hevent]
    exact ⟨(hfits hlate).1, (hfits hlate).2.1⟩
  cases retrial with
  | waits blobs hbytes hstate unmergeable hoffered =>
    subst hstate
    exact .of_offered hbytes.subset hbytes.offers
      (fun _ => hoffered) (fun hnot => absurd hrecordable hnot)
  | applied clock blobs stored hbytes merge hstate =>
    subst hstate
    have hlast := merge.frame.2.2.2.2
    exact .of_offered (hbytes.subset.trans hlast.subset) (hbytes.offers_again hlast)
      (fun _ sha hoffers => merge.offered hoffers) (fun hnot => absurd hrecordable hnot)

/-- An event whose statements are refused ends the pass; at most its bytes have come. -/
theorem retryOne_refused (hrefused : ¬ RetryFits a peer s e) :
    (retryOne a peer e s).fault ≠ none ∧
      (retryOne a peer e s).state = { s with blobs := (retryOne a peer e s).state.blobs } ∧
      Fetching a peer e s (retryOne a peer e s).state := by
  obtain ⟨hlate, hrest⟩ := Classical.not_imp.mp hrefused
  rcases prefetchBlob_cases a peer e s with ⟨hearly, -⟩ | ⟨-, hran⟩
  · exact absurd hearly hlate
  have hprefetched : (∀ p, e.event ≠ .blobAvailable (.ok p)) → ∀ sha, Offers a peer e sha →
      sha ∈ (prefetchSnapshotBlob a peer e s).blobs :=
    fun hnotice sha hoffers => prefetched_offers hoffers hnotice
  have hnotice : ∀ p, e.event = .blobAvailable (.ok p) → prefetchSnapshotBlob a peer e s = s := by
    intro p hevent
    simp [prefetchSnapshotBlob, prefetchBlob, hevent]
  obtain ⟨blobs, hbytes, hfetched⟩ := prefetchSnapshotBlob_eq a peer e s
  unfold retryOne
  rw [hran]
  rw [hfetched] at hrest hprefetched hnotice ⊢
  dsimp only
  by_cases hrecordable : Recordable a e s
  · have hadmitted : ¬ (Mergeable a e { s with blobs := blobs } →
        Admitted a e { s with blobs := blobs }) :=
      fun h => hrest ⟨hrecordable.1, hrecordable.2, h⟩
    obtain ⟨hmergeable, hnot⟩ := Classical.not_imp.mp hadmitted
    have hretried := @retryFetched_retried a peer e { s with blobs := blobs } hrecordable.1
      hrecordable.2
    generalize retryFetched a peer e { s with blobs := blobs } = outcome at hretried ⊢
    cases hretried with
    | merges clock stored mergeable fits merge =>
      have hlimit : a.pg.admits { s with blobs := blobs } e = false := by
        by_contra hadmits
        exact hnot ⟨fits, by simpa using hadmits⟩
      have hlast := merge.frame.2.2.2.2
      simp only [commit, hlimit, Bool.false_eq_true, if_false]
      exact ⟨by simp, trivial, .of_offered (hbytes.subset.trans hlast.subset)
        (hbytes.offers_again hlast) (fun _ sha hoffers => merge.offered hoffers)
        (fun h => absurd (fun _ _ => hrecordable) h)⟩
    | fails mergeable refused =>
      have hother : ∀ p, e.event ≠ .blobAvailable (.ok p) := by
        intro p hevent
        exact refused (by simp [RowFits, hevent])
      exact ⟨by simp, rfl, .of_offered hbytes.subset hbytes.offers
        (fun _ => hprefetched hother) (fun h => absurd (fun _ _ => hrecordable) h)⟩
    | parks unmergeable => exact absurd hmergeable unmergeable
  · unfold retryFetched
    cases hforeign : applyForeignJournal a.pg a.startedAt e { s with blobs := blobs } with
    | ok result =>
      obtain ⟨clock, stored, hrecv, hstored, -⟩ := applyForeignJournal_ok hforeign
      exact absurd ⟨by rw [hstored]; rfl, replHlcRecv_accepts.mp ⟨clock, hrecv⟩⟩ hrecordable
    | error cause =>
      refine ⟨by simp, rfl, .of_offered hbytes.subset hbytes.offers ?_ ?_⟩
      · exact fun h => hprefetched fun p hevent => hrecordable (h p hevent)
      · intro h
        push Not at h
        obtain ⟨p, hevent, -⟩ := h
        exact congrArg SiteState.blobs (hnotice p hevent)

/-- What an attempt leaves: fewer parking rows or the same, and more bytes or the same. -/
structure Onwards (a : Applier) (peer : String) (entries : List JournalEntry) (s t : SiteState) :
    Prop where
  parked : t.parked.Sublist s.parked
  kept : s.blobs ⊆ t.blobs
  offered : ∀ sha ∈ t.blobs, sha ∈ s.blobs ∨ ∃ e ∈ entries, Offers a peer e sha

variable (a peer e s) in
theorem retryOne_fetching : Fetching a peer e s (retryOne a peer e s).state := by
  by_cases hfits : RetryFits a peer s e
  · exact retrial_fetching (retryOne_retrial hfits).2 hfits
  · exact (retryOne_refused hfits).2.2

variable (a peer e s) in
theorem retryOne_onwards : Onwards a peer [e] s (retryOne a peer e s).state := by
  have hfetching := retryOne_fetching a peer e s
  refine ⟨?_, hfetching.kept, fun sha hmem => (hfetching.offered sha hmem).imp_right
    fun hoffers => ⟨e, List.mem_singleton_self e, hoffers⟩⟩
  by_cases hfits : RetryFits a peer s e
  · cases (retryOne_retrial hfits).2 with
    | waits blobs hbytes hstate unmergeable offered =>
      rw [hstate]
    | applied clock blobs stored hbytes merge hstate =>
      rw [hstate]
      have hparked := merge.frame.2.1
      exact hparked ▸ List.filter_sublist
  · rw [(retryOne_refused hfits).2.1]

/-- An event that gets nothing done leaves the state as it is; the pass goes on behind it if its
statements are accepted. -/
theorem retryOne_idle (hidle : ¬ Advances a peer e s) :
    (retryOne a peer e s).state = s ∧
      ((retryOne a peer e s).fault = none ↔ RetryFits a peer s e) := by
  have hsame : (retryOne a peer e s).state.blobs = s.blobs :=
    (retryOne_fetching a peer e s).nothing fun hbrings => hidle (.inl hbrings)
  by_cases hfits : RetryFits a peer s e
  · obtain ⟨hfault, hretrial⟩ := retryOne_retrial hfits
    refine ⟨?_, fun _ => hfits, fun _ => hfault⟩
    cases hretrial with
    | waits blobs hbytes hstate unmergeable offered =>
      rw [hstate] at hsame ⊢
      cases hsame
      rfl
    | applied clock blobs stored hbytes merge hstate =>
      rw [hstate] at hsame
      have hback : blobs ⊆ s.blobs := by
        rw [← hsame]
        exact merge.frame.2.2.2.2.subset
      have hblobs : blobs = s.blobs := hback.antisymm hbytes.subset
      have hmergeable : Mergeable a e s := by
        refine (mergeable_congr ?_ ?_).mp merge.mergeable
        · exact hblobs
        · rfl
      exact absurd (.inr ⟨hmergeable, hfits⟩) hidle
  · obtain ⟨hfault, hstate, -⟩ := retryOne_refused hfits
    rw [hsame] at hstate
    exact ⟨hstate, fun hnone => absurd hnone hfault, fun h => absurd h hfits⟩

theorem retryOne_advances (hparked : ∃ row ∈ s.parked, row.entry = e)
    (hadvances : Advances a peer e s) :
    (retryOne a peer e s).state.parked.length < s.parked.length ∨
      (retryOne a peer e s).state.blobs ≠ s.blobs := by
  rcases hadvances with hbrings | ⟨hmergeable, hfits⟩
  · exact .inr ((retryOne_fetching a peer e s).brings hbrings)
  · have hretrial := (retryOne_retrial hfits).2
    by_contra hstays
    rw [not_or, not_lt, not_not] at hstays
    exact (hretrial.stays hparked hstays.1 hstays.2.subset).2.1 hmergeable

end One

/-! ## One pass -/

variable {e : JournalEntry}

section Pass

variable {a : Applier} {peer : String} {s t u : SiteState} {entries rest : List JournalEntry}

theorem Onwards.trans (first : Onwards a peer entries s t) (second : Onwards a peer rest t u) :
    Onwards a peer (entries ++ rest) s u := by
  refine ⟨second.parked.trans first.parked, first.kept.trans second.kept, ?_⟩
  intro sha hmem
  rcases second.offered sha hmem with hold | ⟨e, he, hoffers⟩
  · rcases first.offered sha hold with hold | ⟨e, he, hoffers⟩
    · exact .inl hold
    · exact .inr ⟨e, List.mem_append_left rest he, hoffers⟩
  · exact .inr ⟨e, List.mem_append_right entries he, hoffers⟩

theorem Onwards.mono (h : Onwards a peer entries s t) (hsub : entries ⊆ rest) :
    Onwards a peer rest s t :=
  ⟨h.parked, h.kept, fun sha hmem => (h.offered sha hmem).imp_right
    fun ⟨e, he, hoffers⟩ => ⟨e, hsub he, hoffers⟩⟩

variable (a peer) in
theorem retryAll_onwards (entries : List JournalEntry) (s : SiteState) :
    Onwards a peer entries s (retryAll a peer entries s).state := by
  induction entries generalizing s with
  | nil => exact ⟨List.Sublist.refl _, Finset.Subset.refl _, fun sha hmem => .inl hmem⟩
  | cons e rest ih =>
    rcases andThen_state (retryOne a peer e s) (retryAll a peer rest) with
      ⟨hstate, -⟩ | ⟨hstate, -⟩
    · rw [retryAll, hstate]
      exact (retryOne_onwards a peer e s).mono (by simp)
    · rw [retryAll, hstate]
      exact (retryOne_onwards a peer e s).trans (ih _)

theorem retryAll_idle (entries : List JournalEntry) (hidle : ¬ Reaches a peer entries s) :
    (retryAll a peer entries s).state = s := by
  induction entries with
  | nil => rfl
  | cons e rest ih =>
    have hfirst : ¬ Advances a peer e s :=
      fun h => hidle ⟨[], e, rest, rfl, List.forall_mem_nil _, h⟩
    obtain ⟨hsame, hfault⟩ := retryOne_idle hfirst
    rcases andThen_state (retryOne a peer e s) (retryAll a peer rest) with
      ⟨hstate, -⟩ | ⟨hstate, hnone⟩
    · rw [retryAll, hstate, hsame]
    · rw [retryAll, hstate, hsame]
      apply ih
      rintro ⟨before, later, after, rfl, hfits, hadvances⟩
      refine hidle ⟨e :: before, later, after, rfl, ?_, hadvances⟩
      exact List.forall_mem_cons.mpr ⟨hfault.mp hnone, hfits⟩

theorem retryAll_cons_advances (hparked : ∃ row ∈ s.parked, row.entry = e)
    (hadvances : Advances a peer e s) (rest : List JournalEntry) :
    (retryAll a peer (e :: rest) s).state.parked.length < s.parked.length ∨
      (retryAll a peer (e :: rest) s).state.blobs ≠ s.blobs := by
  have hfirst := retryOne_advances hparked hadvances
  have honwards := retryOne_onwards a peer e s
  rcases andThen_state (retryOne a peer e s) (retryAll a peer rest) with
    ⟨hstate, -⟩ | ⟨hstate, -⟩
  · rw [retryAll, hstate]
    exact hfirst
  · rw [retryAll, hstate]
    have hrest := retryAll_onwards a peer rest (retryOne a peer e s).state
    refine hfirst.imp (fun hless => hrest.parked.length_le.trans_lt hless) ?_
    intro hmore hsame
    refine hmore (Finset.Subset.antisymm ?_ honwards.kept)
    rw [← hsame]
    exact hrest.kept

theorem retryAll_reaches (entries : List JournalEntry)
    (hparked : ∀ e ∈ entries, ∃ row ∈ s.parked, row.entry = e)
    (hreaches : Reaches a peer entries s) :
    (retryAll a peer entries s).state.parked.length < s.parked.length ∨
      (retryAll a peer entries s).state.blobs ≠ s.blobs := by
  obtain ⟨before, e, after, rfl, hfits, hadvances⟩ := hreaches
  induction before with
  | nil => exact retryAll_cons_advances (hparked e (by simp)) hadvances after
  | cons first before ih =>
    by_cases hfirst : Advances a peer first s
    · exact retryAll_cons_advances (hparked first (by simp)) hfirst _
    · obtain ⟨hsame, hfault⟩ := retryOne_idle hfirst
      have hnone := hfault.mpr (hfits first List.mem_cons_self)
      rcases andThen_state (retryOne a peer first s) (retryAll a peer (before ++ e :: after)) with
        ⟨-, hsome⟩ | ⟨hstate, -⟩
      · exact absurd hnone hsome
      · rw [List.cons_append, retryAll, hstate, hsame]
        exact ih (fun other hother => hparked other (List.mem_cons_of_mem first hother))
          (fun other hother => hfits other (List.mem_cons_of_mem first hother))

end Pass

/-! ## Pass after pass -/

section Passes

variable {a : Applier} {peer : String} {s : SiteState}

theorem windowOf_length (peer : String) (s : SiteState) : (windowOf peer s).length ≤ 100 := by
  rw [windowOf, List.length_map, parkedEvents]
  exact List.length_take_le _ _

theorem retryPass_eq (a : Applier) (peer : String) (s : SiteState) :
    retryPass a peer s = (retryAll a peer (windowOf peer s) s).state := by
  rw [retryPass, retryParked, ← windowOf, List.take_of_length_le (windowOf_length peer s)]

theorem windowOf_parked (hmem : e ∈ windowOf peer s) : ∃ row ∈ s.parked, row.entry = e := by
  obtain ⟨row, hrow, rfl⟩ := List.mem_map.mp hmem
  exact ⟨row, (List.mem_filter.mp (List.mem_of_mem_take hrow)).1, rfl⟩

theorem retryPass_progresses (hprogresses : Progresses a peer s) :
    (retryPass a peer s).parked.length < s.parked.length ∨
      (retryPass a peer s).blobs ≠ s.blobs := by
  rw [retryPass_eq]
  exact retryAll_reaches _ (fun e hmem => windowOf_parked hmem) hprogresses

theorem retryPass_fixed_iff : retryPass a peer s = s ↔ ¬ Progresses a peer s := by
  constructor
  · intro hfixed hprogresses
    have hless := retryPass_progresses hprogresses
    rw [hfixed] at hless
    exact hless.elim (lt_irrefl _) (fun hne => hne rfl)
  · intro hidle
    rw [retryPass_eq]
    exact retryAll_idle _ hidle

def digestsOf (e : JournalEntry) : List String :=
  match e.event with
  | .manifestPut (.ok p) => [p.sha256]
  | .blobAvailable (.ok p) => [p.sha256]
  | _ => []

theorem mem_digestsOf {sha : String} (hoffers : Offers a peer e sha) : sha ∈ digestsOf e := by
  unfold Offers at hoffers
  split at hoffers
  · rename_i hevent
    rw [digestsOf, hevent]
    exact List.mem_singleton.2 hoffers.1.symm
  · rename_i hevent
    rw [digestsOf, hevent]
    exact List.mem_singleton.2 hoffers.1.symm
  · cases hoffers

def reachableBytes (s : SiteState) : Finset String :=
  s.blobs ∪ (s.parked.flatMap fun row => digestsOf row.entry).toFinset

/-- The passes come to rest: bytes come from a finite supply, and rows are only freed. -/
theorem retryPass_rests (a : Applier) (peer : String) (s : SiteState) :
    ∃ n, ((retryPass a peer)^[n] s).parked.Sublist s.parked ∧
      retryPass a peer ((retryPass a peer)^[n] s) = (retryPass a peer)^[n] s := by
  have hwithin : ∀ t, t.parked.Sublist s.parked ∧ t.blobs ⊆ reachableBytes s →
      (retryPass a peer t).parked.Sublist s.parked ∧
        (retryPass a peer t).blobs ⊆ reachableBytes s := by
    rintro t ⟨hparked, hbytes⟩
    have honwards := retryAll_onwards a peer (windowOf peer t) t
    rw [retryPass_eq]
    refine ⟨honwards.parked.trans hparked, ?_⟩
    intro sha hmem
    rcases honwards.offered sha hmem with hold | ⟨e, he, hoffers⟩
    · exact hbytes hold
    · obtain ⟨row, hrow, rfl⟩ := windowOf_parked he
      refine Finset.mem_union_right _ (List.mem_toFinset.mpr ?_)
      exact List.mem_flatMap.mpr ⟨row, hparked.subset hrow, mem_digestsOf hoffers⟩
  refine (exists_fixed_iterate (fun t => t.parked.length + (reachableBytes s \ t.blobs).card)
    hwithin ?_ ⟨List.Sublist.refl _, Finset.subset_union_left⟩).imp fun n h => ⟨h.1.1, h.2⟩
  intro t ht hchanged
  have honwards := retryAll_onwards a peer (windowOf peer t) t
  rw [← retryPass_eq] at honwards
  have hrows := honwards.parked.length_le
  have hrest : reachableBytes s \ (retryPass a peer t).blobs ⊆ reachableBytes s \ t.blobs :=
    Finset.sdiff_subset_sdiff (Finset.Subset.refl _) honwards.kept
  rcases retryPass_progresses (not_not.mp (mt retryPass_fixed_iff.mpr hchanged)) with
    hless | hmore
  · have := Finset.card_le_card hrest
    omega
  · have hstrict : (reachableBytes s \ (retryPass a peer t).blobs).card <
        (reachableBytes s \ t.blobs).card := by
      refine Finset.card_lt_card (Finset.ssubset_iff_subset_ne.mpr ⟨hrest, fun hsame => hmore ?_⟩)
      refine Finset.Subset.antisymm ?_ honwards.kept
      intro sha hmem
      by_contra hmissing
      have hsupply : sha ∈ reachableBytes s \ t.blobs :=
        Finset.mem_sdiff.mpr ⟨(hwithin t ht).2 hmem, hmissing⟩
      rw [← hsame] at hsupply
      exact (Finset.mem_sdiff.mp hsupply).2 hmem
    omega

theorem not_settle_of_stuck (hwaiting : Waiting a peer s) (hidle : ¬ Progresses a peer s) :
    ¬ RetriesSettle a peer s := by
  rintro ⟨n, -, hsettled⟩
  rw [Function.iterate_fixed (retryPass_fixed_iff.mpr hidle)] at hsettled
  exact hsettled hwaiting

/--
Retrying settles exactly when every pass that begins while an event could be
applied comes to one that gets something done.
-/
theorem retries_settle_iff (a : Applier) (peer : String) (s : SiteState) :
    RetriesSettle a peer s ↔
      ∀ n, Waiting a peer ((retryPass a peer)^[n] s) →
        Progresses a peer ((retryPass a peer)^[n] s) := by
  constructor
  · rintro ⟨n, hfixed, hsettled⟩ m hwaiting
    by_contra hidle
    have hstuck := retryPass_fixed_iff.mpr hidle
    -- Both states are fixpoints of one orbit, hence the same state.
    rcases le_total m n with hle | hle
    · obtain ⟨k, rfl⟩ := Nat.exists_eq_add_of_le' hle
      rw [Function.iterate_add_apply, Function.iterate_fixed hstuck] at hsettled
      exact hsettled hwaiting
    · obtain ⟨k, rfl⟩ := Nat.exists_eq_add_of_le' hle
      rw [Function.iterate_add_apply, Function.iterate_fixed hfixed] at hwaiting
      exact hsettled hwaiting
  · intro hprogresses
    obtain ⟨n, -, hfixed⟩ := retryPass_rests a peer s
    exact ⟨n, hfixed, fun hwaiting => retryPass_fixed_iff.mp hfixed (hprogresses n hwaiting)⟩

/-- So it does with at most a hundred parked events of the origin, whose statements are accepted. -/
theorem retries_settle_of_few (hname : peer ≠ "")
    (hfew : (s.parked.filter fun row => row.entry.originSite = peer).length ≤ 100)
    (hfits : ∀ n, ∀ row ∈ s.parked, RetryFits a peer ((retryPass a peer)^[n] s) row.entry) :
    RetriesSettle a peer s := by
  obtain ⟨n, hparked, hfixed⟩ := retryPass_rests a peer s
  refine ⟨n, hfixed, ?_⟩
  rintro ⟨row, hrow, horigin, effect, hdispatch⟩
  have hmergeable : Mergeable a row.entry ((retryPass a peer)^[n] s) := by
    have houtcome := dispatch_outcome a peer row.entry ((retryPass a peer)^[n] s)
    rw [hdispatch] at houtcome
    cases houtcome with
    | merges mergeable fits => exact mergeable
  have hwindow : row.entry ∈ windowOf peer ((retryPass a peer)^[n] s) := by
    rw [windowOf, parkedEvents_of_few hname ((hparked.filter _).length_le.trans hfew)]
    exact List.mem_map_of_mem (List.mem_filter.mpr ⟨hrow, decide_eq_true horigin⟩)
  obtain ⟨before, after, hsplit⟩ := List.append_of_mem hwindow
  refine retryPass_fixed_iff.mp hfixed ⟨before, row.entry, after, hsplit, fun e he => ?_,
    .inr ⟨hmergeable, hfits n row (hparked.subset hrow)⟩⟩
  obtain ⟨other, hother, rfl⟩ := windowOf_parked (hsplit ▸ List.mem_append_left _ he)
  exact hfits n other (hparked.subset hother)

end Passes

/-! ## A hundred events that cannot be applied -/

def strangeEvent (seq : Nat) : JournalEntry :=
  ⟨"east", seq, .unknown "license_set", ⟨100, 0⟩, 1⟩

def releaseEvent : JournalEntry :=
  ⟨"east", 101, .quarantineRelease (.ok ⟨"npm", "pkg@1", "manual"⟩), ⟨100, 0⟩, 1⟩

def crowded : SiteState where
  parked := ((List.range 100).map fun seq => ⟨strangeEvent seq, "unknown event kind", 0⟩) ++
    [⟨releaseEvent, "clock skew 10m0s", 0⟩]

/-- The release is never tried again, although it could be applied at once. -/
theorem release_never_retried : ¬ RetriesSettle (lazyApplier "north" 1000) "east" crowded := by
  have hwindow : ∀ e ∈ windowOf "east" crowded, e.event = .unknown "license_set" := by
    decide +kernel
  refine not_settle_of_stuck ⟨⟨releaseEvent, "clock skew 10m0s", 0⟩, ?_, rfl, _, rfl⟩ ?_
  · exact List.mem_append_right _ (List.mem_singleton_self _)
  · rintro ⟨before, e, after, hsplit, -, hadvances⟩
    have hevent := hwindow e (by rw [hsplit]; simp)
    rcases hadvances with ⟨sha, hoffers, -⟩ | ⟨hmergeable, -⟩
    · simp [Offers, hevent] at hoffers
    · simp [Mergeable, hevent] at hmergeable

end FondacoFormal.Safety
