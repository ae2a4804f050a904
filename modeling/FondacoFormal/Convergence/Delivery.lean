import FondacoFormal.Convergence.Refinement
import FondacoFormal.Safety.StreamProgress

/-!
# Delivering and retrying events

The invariant of a site that is sent events, in any order and any number of
times: every event it was sent is applied or parked, and its tables show exactly
what the applied events tell.
-/

namespace FondacoFormal.Convergence

open Library State Repl

/--
The events other sites can send: a key names one event, a path has one coordinate
and one flag, no event decides a derived block, and payloads are as a `JSONB`
column gives them out.
-/
structure EventSet (a : Applier) (cat : Catalog) (events : Set JournalEntry) : Prop where
  keyed : ∀ e ∈ events, ∀ other ∈ events, e.key = other.key → e = other
  catalogued : ∀ e ∈ events, Catalogued cat e
  normal : ∀ e ∈ events, a.pg.jsonb e.event = some e.event
  foreign : ∀ e ∈ events, e.originSite ≠ a.site
  named : ∀ e ∈ events, e.originSite ≠ ""

/--
The state of a site that knew `base` at first, was sent `sent` and has applied
`applied`.
-/
structure Synced (a : Applier) (cat : Catalog) (base : Set Observation) (bytes : Finset String)
    (sent applied : Set JournalEntry) (s : SiteState) : Prop where
  sub : applied ⊆ sent
  covered : ∀ e ∈ sent, e ∈ applied ∨ ∃ row ∈ s.parked, row.entry = e
  waiting : ∀ row ∈ s.parked, row.entry ∈ sent
  journaled : ∀ key row, s.journal.find key = some row → ∃ e ∈ applied, e.key = key
  mergeable : ∀ e ∈ applied, Mergeable a e s
  kept : bytes ⊆ s.blobs
  fetched : ∀ sha ∈ s.blobs, sha ∈ bytes ∨ ∃ e ∈ sent, Offers a e.originSite e sha
  offered : ∀ e ∈ applied, ∀ sha, Offers a e.originSite e sha → sha ∈ s.blobs
  refines : SiteRefines cat (base ∪ observed applied) s

section Steps

variable {a : Applier} {e : JournalEntry} {s t : SiteState} {cat : Catalog}

theorem recorded_mono {told more : Set Observation}
    (hs : SiteRefines cat told s) (ht : SiteRefines cat more t) (hsub : told ⊆ more)
    (feed path sha : String) (hrecorded : Recorded s feed path sha) :
    Recorded t feed path sha := by
  obtain ⟨hcontested, h, hpublished⟩ := ((hs.paths (feed, path)).named sha).mp hrecorded
  exact ((ht.paths (feed, path)).named sha).mpr
    ⟨contested_mono hsub hcontested, h, hsub hpublished⟩

variable {base : Set Observation} {bytes : Finset String} {sent applied events : Set JournalEntry}

section

variable (synced : Synced a cat base bytes sent applied s)

include synced

theorem Synced.came {sha : String} (hcame : sha ∈ s.blobs ∨ Offers a e.originSite e sha) :
    sha ∈ bytes ∨ ∃ other ∈ insert e sent, Offers a other.originSite other sha := by
  rcases hcame with hold | hoffers
  · refine (synced.fetched sha hold).imp id ?_
    rintro ⟨other, hother, hoffers⟩
    exact ⟨other, .inr hother, hoffers⟩
  · exact .inr ⟨e, .inl rfl, hoffers⟩

/-- An attempt that merges nothing: at most bytes are fetched and the event is parked. -/
theorem Synced.wait (same : SameTables s t) (hfetch : FetchStep a e.originSite e s.blobs t.blobs)
    (hjournal : ∀ key row, t.journal.find key = some row → ∃ old, s.journal.find key = some old)
    (hparked : ∀ row ∈ t.parked, row.entry = e ∨ ∃ old ∈ s.parked, old.entry = row.entry)
    (hkept : ∀ row ∈ s.parked, ∃ new ∈ t.parked, new.entry = row.entry)
    (hsettled : e ∈ applied ∨ ∃ row ∈ t.parked, row.entry = e) :
    Synced a cat base bytes (insert e sent) applied t := by
  have hblobs := hfetch.subset
  refine
    { sub := synced.sub.trans (Set.subset_insert e sent)
      covered := ?_
      waiting := ?_
      journaled := ?_
      mergeable := ?_
      kept := synced.kept.trans hblobs
      fetched := ?_
      offered := fun other hmem sha hoffers => hblobs (synced.offered other hmem sha hoffers)
      refines := synced.refines.of_same same }
  · rintro other (rfl | hother)
    · exact hsettled
    · refine (synced.covered other hother).imp id ?_
      rintro ⟨row, hrow, rfl⟩
      exact hkept row hrow
  · intro row hrow
    rcases hparked row hrow with heq | ⟨old, hold, heq⟩
    · exact .inl heq
    · rw [← heq]
      exact .inr (synced.waiting old hold)
  · intro key row hfind
    obtain ⟨old, hold⟩ := hjournal key row hfind
    exact synced.journaled key old hold
  · intro other hmem
    refine (synced.mergeable other hmem).mono hblobs ?_
    intro feed path sha hrecorded
    exact (recorded_congr same.conflicts feed path sha).mpr hrecorded
  · exact fun sha hmem => synced.came (hfetch.offers sha hmem)

theorem Synced.merge (hcat : Catalogued cat e) {recorded after : SiteState}
    (before : SameTables s recorded) (hfetch : FetchStep a e.originSite e s.blobs recorded.blobs)
    (hmerged : Merged a e.originSite e recorded after) (same : SameTables after t)
    (hbytes : t.blobs = after.blobs) (hjournal : ∀ key row, t.journal.find key = some row →
      key = e.key ∨ ∃ old, s.journal.find key = some old)
    (hparked : ∀ row ∈ t.parked, row ∈ s.parked)
    (hkept : ∀ row ∈ s.parked, row ∈ t.parked ∨ row.entry = e) :
    Synced a cat base bytes (insert e sent) (insert e applied) t := by
  have hlast := hmerged.frame.2.2.2.2
  have hblobs : s.blobs ⊆ t.blobs := by
    rw [hbytes]
    exact hfetch.subset.trans hlast.subset
  have hrefines : SiteRefines cat (base ∪ observed (insert e applied)) t := by
    rw [observed_insert, union_learn]
    exact ((synced.refines.of_same before).merge hcat hmerged).of_same same
  have hmono := recorded_mono synced.refines hrefines
    (Set.union_subset_union_right base (observed_mono (Set.subset_insert e applied)))
  refine
    { sub := Set.insert_subset_insert synced.sub
      covered := ?_
      waiting := fun row hrow => .inr (synced.waiting row (hparked row hrow))
      journaled := ?_
      mergeable := ?_
      kept := synced.kept.trans hblobs
      fetched := ?_
      offered := ?_
      refines := hrefines }
  · rintro other (rfl | hother)
    · exact .inl (.inl rfl)
    · rcases synced.covered other hother with hold | ⟨row, hrow, rfl⟩
      · exact .inl (.inr hold)
      · rcases hkept row hrow with hstays | heq
        · exact .inr ⟨row, hstays, rfl⟩
        · exact .inl (.inl heq)
  · intro key row hfind
    rcases hjournal key row hfind with rfl | ⟨old, hold⟩
    · exact ⟨e, .inl rfl, rfl⟩
    · obtain ⟨other, hother, hkey⟩ := synced.journaled key old hold
      exact ⟨other, .inr hother, hkey⟩
  · rintro other (rfl | hother)
    · refine hmerged.mergeable.mono ?_ ?_
      · rw [hbytes]
        exact hlast.subset
      · intro feed path sha hnamed
        exact hmono feed path sha ((recorded_congr before.conflicts feed path sha).mp hnamed)
    · exact (synced.mergeable other hother).mono hblobs hmono
  · exact fun sha hmem => synced.came (hfetch.offers_again hlast sha (hbytes ▸ hmem))
  · rintro other (rfl | hother) sha hoffers
    · rw [hbytes]
      exact hmerged.offered hoffers
    · exact hblobs (synced.offered other hother sha hoffers)

variable (hevents : EventSet a cat events) (hsent : sent ⊆ events) {now startedAt : Int}

include hevents hsent

theorem Synced.delivered (he : e ∈ events)
    (delivery : Delivery (a.atTime now startedAt) e.originSite e s t) :
    ∃ more, Synced a cat base bytes (insert e sent) more t := by
  cases delivery with
  | known clock blobs hfetch recorded hstate =>
    obtain ⟨row, hrow⟩ := Option.isSome_iff_exists.mp recorded
    obtain ⟨other, hother, hkey⟩ := synced.journaled e.key row hrow
    have hknown : e ∈ applied := by
      rw [hevents.keyed e he other (hsent (synced.sub hother)) hkey.symm]
      exact hother
    subst hstate
    refine ⟨applied, synced.wait ⟨rfl, rfl, rfl, rfl, rfl⟩ hfetch ?_ ?_ ?_ (.inl hknown)⟩
    · exact fun key row hfind => ⟨row, hfind⟩
    · exact fun row hmem => .inr ⟨row, hmem, rfl⟩
    · exact fun row hmem => ⟨row, hmem, rfl⟩
  | applied clock blobs stored hfetch fresh merge =>
    obtain ⟨hjournal, hparked, -⟩ := merge.frame
    refine ⟨insert e applied, synced.merge (hevents.catalogued e he) ?_ ?_ merge.atTime (.refl t)
      rfl ?_ ?_ ?_⟩
    · exact ⟨rfl, rfl, rfl, rfl, rfl⟩
    · exact hfetch
    · intro key row hfind
      rw [hjournal] at hfind
      by_cases heq : key = e.key
      · exact .inl heq
      · rw [Table.find_insertNew_of_ne _ _ heq] at hfind
        exact .inr ⟨row, hfind⟩
    · rw [hparked]
      exact fun row hmem => hmem
    · rw [hparked]
      exact fun row hmem => .inl hmem
  | parked blobs reason hfetch ran =>
    obtain ⟨parked, hstate⟩ := parkEvent_ok ran
    have hentry : ∀ row ∈ t.parked,
        row.entry = e ∨ ∃ old ∈ s.parked, old.entry = row.entry := by
      intro row hmem
      rcases parkEvent_mem ran hmem with hold | ⟨stored, hstored, hrow⟩
      · exact .inr hold
      · have hnormal := hevents.normal e he
        rw [show a.pg.jsonb e.event = some stored from hstored] at hnormal
        rw [hrow, Option.some.inj hnormal]
        exact .inl rfl
    refine ⟨applied, synced.wait ?_ ?_ ?_ hentry (fun row hmem => parkEvent_keeps ran hmem) ?_⟩
    · rw [hstate]
      exact ⟨rfl, rfl, rfl, rfl, rfl⟩
    · rw [hstate]
      exact hfetch
    · rw [hstate]
      exact fun key row hfind => ⟨row, hfind⟩
    · -- The row under the event's key is the event's: keys name one event.
      obtain ⟨row, hmem, hkey⟩ := parkEvent_parked ran
      refine .inr ⟨row, hmem, ?_⟩
      rcases hentry row hmem with heq | ⟨old, hold, heq⟩
      · exact heq
      · have hold' := synced.waiting old hold
        rw [heq] at hold'
        exact hevents.keyed row.entry (hsent hold') e he hkey

theorem Synced.attempted (he : e ∈ sent)
    (retrial : Retrial (a.atTime now startedAt) e.originSite e s t) :
    ∃ more, Synced a cat base bytes sent more t := by
  rw [← Set.insert_eq_of_mem he]
  cases retrial with
  | waits blobs hfetch hstate unmergeable offered =>
    subst hstate
    refine ⟨applied, synced.wait ⟨rfl, rfl, rfl, rfl, rfl⟩ hfetch ?_ ?_ ?_ (synced.covered e he)⟩
    · exact fun key row hfind => ⟨row, hfind⟩
    · exact fun row hmem => .inr ⟨row, hmem, rfl⟩
    · exact fun row hmem => ⟨row, hmem, rfl⟩
  | applied clock blobs stored hfetch merge hstate =>
    obtain ⟨hjournal, hparked, -⟩ := merge.frame
    subst hstate
    refine ⟨insert e applied, synced.merge (hevents.catalogued e (hsent he)) ?_ ?_ merge.atTime
      ⟨rfl, rfl, rfl, rfl, rfl⟩ rfl ?_ ?_ ?_⟩
    · exact ⟨rfl, rfl, rfl, rfl, rfl⟩
    · exact hfetch
    · intro key row hfind
      rw [show (unparkEvent _ e.key).journal = _ from hjournal] at hfind
      by_cases heq : key = e.key
      · exact .inl heq
      · rw [Table.find_insertNew_of_ne _ _ heq] at hfind
        exact .inr ⟨row, hfind⟩
    · intro row hmem
      have hold := (List.mem_filter.mp hmem).1
      rw [hparked] at hold
      exact hold
    · intro row hmem
      by_cases hkey : row.hasKey e.key = true
      · refine .inr (hevents.keyed row.entry (hsent (synced.waiting row hmem)) e (hsent he) ?_)
        exact of_decide_eq_true hkey
      · refine .inl (List.mem_filter.mpr ⟨?_, by simpa using hkey⟩)
        rw [hparked]
        exact hmem

end

theorem Synced.prune (synced : Synced a cat base bytes sent applied s)
    (keeps : String × Int → JournalRow → Bool) :
    Synced a cat base bytes sent applied { s with journal := s.journal.keep keeps } := by
  refine { synced with
    journaled := ?_
    mergeable := fun e hmem => (mergeable_congr rfl rfl).mpr (synced.mergeable e hmem)
    refines := synced.refines.of_same ⟨rfl, rfl, rfl, rfl, rfl⟩ }
  intro key row hfind
  exact synced.journaled key row (Table.find_of_find_keep hfind)

theorem Synced.start (a : Applier) (refines : SiteRefines cat base s) (hjournal : s.journal = ∅)
    (hparked : s.parked = []) : Synced a cat base s.blobs ∅ ∅ s := by
  refine
    { sub := Set.Subset.refl _
      covered := fun e hmem => nomatch hmem
      waiting := ?_
      journaled := ?_
      mergeable := fun e hmem => nomatch hmem
      kept := Finset.Subset.refl _
      fetched := fun sha hmem => .inl hmem
      offered := fun e hmem => nomatch hmem
      refines := ?_ }
  · intro row hmem
    rw [hparked] at hmem
    cases hmem
  · intro key row hfind
    rw [hjournal] at hfind
    cases hfind
  · rw [observed_empty, Set.union_empty]
    exact refines

theorem Synced.initial (a : Applier) (cat : Catalog) (bytes : Finset String) :
    Synced a cat ∅ bytes ∅ ∅ { blobs := bytes } := by
  have refines : SiteRefines cat ∅ { blobs := bytes } :=
    SiteRefines.empty.of_same ⟨rfl, rfl, rfl, rfl, rfl⟩
  exact .start a refines rfl rfl

end Steps

end FondacoFormal.Convergence
