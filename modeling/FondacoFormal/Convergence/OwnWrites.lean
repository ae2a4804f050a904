import FondacoFormal.Convergence.Paths

/-!
# A site's own writes

A site stamps its row or decision first and the announcement after it, so it ranks its own
write lower than its peers do.
-/

namespace FondacoFormal.Convergence

open Library Library.Register State Repl

def announced (s : SiteState) : Set Observation :=
  observed (journaled s.journal)

def ownAnnounced (site : String) (s : SiteState) : Set Observation :=
  observed {e | e ∈ journaled s.journal ∧ e.originSite = site}

def pointerDigest (x : HLC ×ₗ Stringᵒᵈ) : String :=
  OrderDual.ofDual (ofLex x).2

def decisionDigest (x : HLC ×ₗ String) : String :=
  (ofLex x).2

/-! ## One site -/

/--
The tables of a site show what its journal tells, its own writes under the stamp
they had when the row was written.
-/
structure Follows (flags : PathKey → Bool) (site : String) (shown : Set Observation)
    (s : SiteState) : Prop where
  paths : PathsRefine flags shown s
  known : ∀ key, digests shown key = digests (announced s) key
  newest : ∀ key, flags key = true →
    Trails (pointers (announced s) key) (pointers (ownAnnounced site s) key) pointerDigest
      ((s.hosted.find key).map pointerOf)
  decided : ∀ key,
    Trails (decisions (announced s) key) (decisions (ownAnnounced site s) key) decisionDigest
      ((storedResolution s key.1 key.2).map decisionOf)
  clock : ∀ e ∈ journaled s.journal, e.hlc ≤ s.clock.stamp

/--
The condition on a peer's event: it does not rank between the stamp of the row (or
of the decision) it meets and the stamp under which the site announced that one.
-/
def InTurn (site : String) (s : SiteState) (e : JournalEntry) : Prop :=
  match observe e with
  | some (.publish key h sha) => ∀ row, s.hosted.find key = some row → row.mutable = true →
      ∀ later, .publish key later row.sha256 ∈ ownAnnounced site s →
        ¬ (pointerOf row < toLex (h, OrderDual.toDual sha) ∧
          toLex (h, OrderDual.toDual sha) < toLex (later, OrderDual.toDual row.sha256))
  | some (.decision key h keepSha) => ∀ r, storedResolution s key.1 key.2 = some r →
      ∀ later, .decision key later r.keepSha ∈ ownAnnounced site s →
        ¬ (decisionOf r < toLex (h, keepSha) ∧ toLex (h, keepSha) < toLex (later, r.keepSha))
  | _ => True

variable {req : PublishRequest} {event : Event} {u : SiteState} {later : HLC}
  (told : Set Observation)

section Site

variable {flags : PathKey → Bool} {site : String} {shown : Set Observation} {s t : SiteState}
  {e : JournalEntry} {key : PathKey}

variable {h : HLC} {sha keepSha : String}

theorem Follows.stamp_le (follows : Follows flags site shown s)
    (hmem : .publish key h sha ∈ announced s ∨ .decision key h sha ∈ announced s) :
    h ≤ s.clock.stamp := by
  rcases hmem with ⟨e, hjournal, hobserve⟩ | ⟨e, hjournal, hobserve⟩ <;>
    unfold observe at hobserve <;> split at hobserve <;> cases hobserve <;>
      exact follows.clock e hjournal

theorem Follows.keep (follows : Follows flags site shown s) (same : SameTables s t)
    (hjournal : t.journal = s.journal) (hclock : s.clock.stamp ≤ t.clock.stamp) :
    Follows flags site shown t := by
  refine
    { paths := follows.paths.of_same same.hosted same.conflicts same.resolutions
      known := ?_
      newest := ?_
      decided := ?_
      clock := ?_ }
  · unfold announced
    rw [hjournal]
    exact follows.known
  · unfold announced ownAnnounced
    rw [hjournal, same.hosted]
    exact follows.newest
  · unfold announced ownAnnounced
    intro key
    rw [hjournal, storedResolution_congr same.resolutions]
    exact follows.decided key
  · rw [hjournal]
    exact fun e hmem => (follows.clock e hmem).trans hclock

section

variable (hjournal : journaled t.journal = insert e (journaled s.journal))

include hjournal

theorem announced_insert : announced t = learn (announced s) e := by
  unfold announced
  rw [hjournal, observed_insert]

theorem ownAnnounced_foreign (hforeign : e.originSite ≠ site) :
    ownAnnounced site t = ownAnnounced site s := by
  unfold ownAnnounced
  rw [hjournal]
  congr 1
  ext other
  constructor
  · rintro ⟨rfl | hold, horigin⟩
    · exact absurd horigin hforeign
    · exact ⟨hold, horigin⟩
  · rintro ⟨hold, horigin⟩
    exact ⟨.inr hold, horigin⟩

end

theorem digests_learn (e : JournalEntry) (key : PathKey) :
    digests (learn told e) key =
      digests told key ∪ {sha | ∃ h, observe e = some (.publish key h sha)} := by
  ext sha
  exact exists_or

theorem pointers_learn (hnone : ∀ h sha, observe e ≠ some (.publish key h sha)) :
    pointers (learn told e) key = pointers told key := by
  ext x
  exact or_iff_left (hnone _ _)

theorem decisions_learn (hnone : ∀ h sha, observe e ≠ some (.decision key h sha)) :
    decisions (learn told e) key = decisions told key := by
  ext x
  exact or_iff_left (hnone _ _)

theorem InTurn.publish (hturn : InTurn site s e) (hobserve : observe e = some (.publish key h sha))
    (hflag : ∀ row, s.hosted.find key = some row → row.mutable = true) :
    ∀ v, (s.hosted.find key).map pointerOf = some v →
      ∀ x ∈ pointers (ownAnnounced site s) key, pointerDigest x = pointerDigest v →
        ¬ (v < toLex (h, OrderDual.toDual sha) ∧ toLex (h, OrderDual.toDual sha) < x) := by
  intro v hshown x hown hlabel
  obtain ⟨row, hrow, rfl⟩ := Option.map_eq_some_iff.mp hshown
  unfold InTurn at hturn
  rw [hobserve] at hturn
  obtain ⟨later, rfl⟩ : ∃ later, x = toLex (later, OrderDual.toDual row.sha256) :=
    ⟨(ofLex x).1, congrArg (fun sha => toLex ((ofLex x).1, OrderDual.toDual sha)) hlabel⟩
  exact hturn row hrow (hflag row hrow) later hown

theorem InTurn.decision (hturn : InTurn site s e)
    (hobserve : observe e = some (.decision key h keepSha)) :
    ∀ v, (storedResolution s key.1 key.2).map decisionOf = some v →
      ∀ x ∈ decisions (ownAnnounced site s) key, decisionDigest x = decisionDigest v →
        ¬ (v < toLex (h, keepSha) ∧ toLex (h, keepSha) < x) := by
  intro v hshown x hown hlabel
  obtain ⟨r, hstored, rfl⟩ := Option.map_eq_some_iff.mp hshown
  unfold InTurn at hturn
  rw [hobserve] at hturn
  obtain ⟨later, rfl⟩ : ∃ later, x = toLex (later, r.keepSha) :=
    ⟨(ofLex x).1, congrArg (fun sha => toLex ((ofLex x).1, sha)) hlabel⟩
  exact hturn r hstored later hown

theorem Follows.merge (follows : Follows flags site shown s) (hforeign : e.originSite ≠ site)
    (hturn : InTurn site s e) (hpaths : PathsRefine flags (learn shown e) t)
    (hjournal : journaled t.journal = insert e (journaled s.journal))
    (hclock : s.clock.stamp ≤ t.clock.stamp) (hreceived : e.hlc ≤ t.clock.stamp) :
    Follows flags site (learn shown e) t := by
  have hannounced := announced_insert hjournal
  have hown := ownAnnounced_foreign hjournal hforeign
  refine
    { paths := hpaths
      known := ?_
      newest := ?_
      decided := ?_
      clock := ?_ }
  · intro key
    rw [hannounced, digests_learn, digests_learn, follows.known]
  · intro key hmutable
    have hbefore := (follows.paths key).newest hmutable
    have hafter := (hpaths key).newest hmutable
    rw [hannounced, hown]
    by_cases hpublish : ∃ h sha, observe e = some (.publish key h sha)
    · obtain ⟨h, sha, hobserve⟩ := hpublish
      rw [learn_some hobserve, pointers_insert_publish] at hafter ⊢
      refine (follows.newest key hmutable).write hbefore hafter ?_
      refine hturn.publish hobserve fun row hrow => ?_
      rw [(follows.paths key).flag row hrow]
      exact hmutable
    · have hnone : ∀ h sha, observe e ≠ some (.publish key h sha) :=
        fun h sha hobserve => hpublish ⟨h, sha, hobserve⟩
      rw [pointers_learn _ hnone] at hafter ⊢
      exact (follows.newest key hmutable).of_same hbefore hafter
  · intro key
    have hbefore := (follows.paths key).decided
    have hafter := (hpaths key).decided
    rw [hannounced, hown]
    by_cases hdecision : ∃ h keepSha, observe e = some (.decision key h keepSha)
    · obtain ⟨h, keepSha, hobserve⟩ := hdecision
      rw [learn_some hobserve, decisions_insert_decision] at hafter ⊢
      exact (follows.decided key).write hbefore hafter (hturn.decision hobserve)
    · have hnone : ∀ h keepSha, observe e ≠ some (.decision key h keepSha) :=
        fun h keepSha hobserve => hdecision ⟨h, keepSha, hobserve⟩
      rw [decisions_learn _ hnone] at hafter ⊢
      exact (follows.decided key).of_same hbefore hafter
  · rw [hjournal]
    rintro other (rfl | hold)
    · exact hreceived
    · exact (follows.clock other hold).trans hclock

theorem ownAnnounced_own (hjournal : journaled t.journal = insert e (journaled s.journal))
    (horigin : e.originSite = site) : ownAnnounced site t = learn (ownAnnounced site s) e := by
  unfold ownAnnounced
  rw [hjournal, ← observed_insert]
  congr 1
  ext other
  constructor
  · rintro ⟨rfl | hold, hother⟩
    · exact .inl rfl
    · exact .inr ⟨hold, hother⟩
  · rintro (rfl | ⟨hold, hother⟩)
    · exact ⟨.inl rfl, horigin⟩
    · exact ⟨.inr hold, hother⟩

section

variable (follows : Follows flags site shown s) (hstamp : s.clock.stamp < h) (hlater : h < later)
  (hclock : ∀ e ∈ journaled t.journal, e.hlc ≤ t.clock.stamp)

include follows hstamp hlater hclock

/-- An own publish, shown under the stamp of its row and announced under a later one. -/
theorem Follows.ownPublish
    (hpaths : PathsRefine flags (insert (.publish key h sha) shown) t)
    (hannounced : announced t = insert (.publish key later sha) (announced s))
    (hown : ownAnnounced site t = insert (.publish key later sha) (ownAnnounced site s)) :
    Follows flags site (insert (.publish key h sha) shown) t := by
  have helsewhere : ∀ {other : PathKey} (stamp : HLC), other ≠ key →
      (Observation.publish key stamp sha).path? ≠ some other :=
    fun _ hne heq => hne (Option.some.inj heq).symm
  refine
    { paths := hpaths
      known := ?_
      newest := ?_
      decided := ?_
      clock := hclock }
  · intro other
    rw [hannounced]
    by_cases heq : other = key
    · rw [heq, digests_insert_publish, digests_insert_publish, follows.known]
    · rw [(insert_elsewhere _ (helsewhere h heq)).2.1,
        (insert_elsewhere _ (helsewhere later heq)).2.1,
        follows.known]
  · intro other hmutable
    have hbefore := (follows.paths other).newest hmutable
    have hafter := (hpaths other).newest hmutable
    rw [hannounced, hown]
    by_cases heq : other = key
    · rw [heq] at hbefore hafter hmutable ⊢
      rw [pointers_insert_publish] at hafter ⊢
      refine (follows.newest key hmutable).announce hbefore hafter ?_ ?_ rfl ?_
      · intro x hx
        exact Prod.Lex.lt_iff.mpr (.inl ((follows.stamp_le (.inl hx)).trans_lt hstamp))
      · exact Prod.Lex.le_iff.mpr (.inl hlater)
      · rw [pointers_insert_publish]
        exact Set.mem_insert _ _
    · rw [(insert_elsewhere _ (helsewhere h heq)).1] at hafter
      rw [(insert_elsewhere _ (helsewhere later heq)).1,
        (insert_elsewhere _ (helsewhere later heq)).1]
      exact (follows.newest other hmutable).of_same hbefore hafter
  · intro other
    have hafter := (hpaths other).decided
    rw [decisions_insert_publish] at hafter
    rw [hannounced, hown, decisions_insert_publish, decisions_insert_publish]
    exact (follows.decided other).of_same (follows.paths other).decided hafter

/-- An own decision, shown under the stamp it was stored with and announced under a later one. -/
theorem Follows.ownDecision
    (hpaths : PathsRefine flags (insert (.decision key h keepSha) shown) t)
    (hannounced : announced t = insert (.decision key later keepSha) (announced s))
    (hown : ownAnnounced site t = insert (.decision key later keepSha) (ownAnnounced site s)) :
    Follows flags site (insert (.decision key h keepSha) shown) t := by
  have helsewhere : ∀ {other : PathKey} (stamp : HLC), other ≠ key →
      (Observation.decision key stamp keepSha).path? ≠ some other :=
    fun _ hne heq => hne (Option.some.inj heq).symm
  refine
    { paths := hpaths
      known := ?_
      newest := ?_
      decided := ?_
      clock := hclock }
  · intro other
    rw [hannounced, digests_insert_decision, digests_insert_decision, follows.known]
  · intro other hmutable
    have hafter := (hpaths other).newest hmutable
    rw [pointers_insert_decision] at hafter
    rw [hannounced, hown, pointers_insert_decision, pointers_insert_decision]
    exact (follows.newest other hmutable).of_same ((follows.paths other).newest hmutable) hafter
  · intro other
    have hbefore := (follows.paths other).decided
    have hafter := (hpaths other).decided
    rw [hannounced, hown]
    by_cases heq : other = key
    · rw [heq] at hbefore hafter ⊢
      rw [decisions_insert_decision] at hafter ⊢
      refine (follows.decided key).announce hbefore hafter ?_ ?_ rfl ?_
      · intro x hx
        exact Prod.Lex.lt_iff.mpr (.inl ((follows.stamp_le (.inr hx)).trans_lt hstamp))
      · exact Prod.Lex.le_iff.mpr (.inl hlater)
      · rw [decisions_insert_decision]
        exact Set.mem_insert _ _
    · rw [(insert_elsewhere _ (helsewhere h heq)).2.2] at hafter
      rw [(insert_elsewhere _ (helsewhere later heq)).2.2,
        (insert_elsewhere _ (helsewhere later heq)).2.2]
      exact (follows.decided other).of_same hbefore hafter

end

variable {pg : Postgres}

theorem appended_announced {o : Observation} (append : Appended pg site event u t e)
    (hjournal : u.journal = s.journal) (hobserve : observe e = some o) :
    announced t = insert o (announced s) ∧
      ownAnnounced site t = insert o (ownAnnounced site s) := by
  have hinsert : journaled t.journal = insert e (journaled s.journal) := by
    rw [append.journal, hjournal]
  rw [announced_insert hinsert, ownAnnounced_own hinsert append.origin, learn_some hobserve,
    learn_some hobserve]
  exact ⟨rfl, rfl⟩

theorem appended_clock_le (append : Appended pg site event u t e)
    (hbound : ∀ other ∈ journaled u.journal, other.hlc ≤ u.clock.stamp) :
    ∀ other ∈ journaled t.journal, other.hlc ≤ t.clock.stamp := by
  rw [append.journal, append.clock]
  rintro other (rfl | hold)
  · exact le_rfl
  · exact (hbound other hold).trans append.later.le

variable (follows : Follows flags site shown s)

include follows

theorem Follows.written (hflag : req.mutable = flags (req.feed, req.path))
    (hstamp : s.clock.stamp < h) (row : RowWritten site req h s t) :
    PathsRefine flags (insert (.publish (req.feed, req.path) h req.sha256) shown) t := by
  have hpath := follows.paths (req.feed, req.path)
  cases row with
  | created absent written =>
    have hcreated := hpath.create absent
      (Table.find_put_self s.hosted (req.feed, req.path) (publishedRow site req h))
      (t := writeHosted (req.feed, req.path) (publishedRow site req h) s) hflag rfl rfl
    refine PathsRefine.of_same ?_ written.hosted written.conflicts written.resolutions
    exact follows.paths.publish hcreated (fun other hne => Table.find_put_of_ne _ _ hne) rfl rfl
  | @republished existing present mutables differs written =>
    have hmutable : flags (req.feed, req.path) = true := hflag.symm.trans mutables.2
    have hheld := hpath.newest hmutable
    rw [present] at hheld
    obtain ⟨x, hx, hle⟩ : ∃ x ∈ pointers (announced s) (req.feed, req.path),
        pointerOf existing ≤ x := by
      have htrails := follows.newest (req.feed, req.path) hmutable
      rw [present] at htrails
      exact htrails.bounded
    refine PathsRefine.of_same ?_ written.hosted written.conflicts written.resolutions
    refine follows.paths.publish ?_ (fun other hne => Table.find_put_of_ne _ _ hne) rfl rfl
    refine hpath.repoint hmutable (Table.find_put_self _ _ _) (mutables.1.trans hmutable.symm) ?_
      rfl rfl
    refine Holds.write_later hheld (hle.trans_lt ?_)
    exact Prod.Lex.lt_iff.mpr (.inl ((follows.stamp_le (.inl hx)).trans_lt hstamp))

section

variable (hpg : ∀ event stored, pg.jsonb event = some stored → stored = event)

include hpg

theorem Follows.publish {done : Published} (hflag : req.mutable = flags (req.feed, req.path))
    (commit : PublishCommit pg site req s done) : ∃ more, Follows flags site more done.state := by
  cases commit with
  | unannounced same journal later clock =>
    refine ⟨shown, follows.keep same journal ?_⟩
    rw [clock]
    exact later.le
  | @announced inserted middle t h entry bytes row journal later clock first second =>
    have hput : observe entry = some (.publish (req.feed, req.path) entry.hlc req.sha256) :=
      observe_put (hpg _ _ first.event)
    have hsilent : observe bytes = none := by
      unfold observe
      rw [hpg _ _ second.event]
    obtain ⟨hannounced, hown⟩ := appended_announced first journal hput
    have hquiet : ∀ told, learn told bytes = told := fun _ => learn_none hsilent
    rw [← hquiet (announced middle), ← announced_insert second.journal] at hannounced
    rw [← hquiet (ownAnnounced site middle), ← ownAnnounced_own second.journal second.origin]
      at hown
    refine ⟨_, follows.ownPublish later ?_ ?_ (follows.written hflag later row) hannounced hown⟩
    · rw [← clock]
      exact first.later
    · refine appended_clock_le second (appended_clock_le first ?_)
      rw [journal, clock]
      exact fun e hmem => (follows.clock e hmem).trans later.le

theorem Follows.resolve {feed path coord operator : String} {clock : TxClock} {done : Resolved}
    (ran : resolveConflict pg site feed path coord keepSha operator clock s = .ok done) :
    ∃ more, Follows flags site more done.state := by
  obtain ⟨side, stamped, decided, hside, hsame, hstamp, hdecided, hjournal, hclock, hdone,
    append⟩ := resolveConflict_commit ran
  have hsha : side.sha256 = keepSha := conflictSide_sha hside
  have hobserve : observe done.entry = some (.decision (feed, path) done.entry.hlc keepSha) := by
    unfold observe
    rw [hpg _ _ append.event]
  have hpaths := follows.paths.of_same hsame.hosted hsame.conflicts hsame.resolutions
  have hnamed : Recorded stamped feed path (SideMeta.decision side done.stamp).keepSha := by
    rw [recorded_congr hsame.conflicts]
    rw [show (SideMeta.decision side done.stamp).keepSha = keepSha from hsha]
    exact conflictSide_isSome.mp (by rw [hside]; rfl)
  -- The new decision ranks above the stored one, so it is the one that is kept.
  have hnew : storedResolution (recordResolution feed path coord
      (SideMeta.decision side done.stamp) operator site stamped) feed path =
        some (SideMeta.decision side done.stamp) := by
    refine storedResolution_recordResolution_new coord operator site ?_
    intro stored hstored
    rw [storedResolution_congr hsame.resolutions] at hstored
    have htrails := follows.decided (feed, path)
    rw [hstored] at htrails
    obtain ⟨x, hx, hle⟩ := htrails.bounded
    refine decidedBefore_iff.mpr (hle.trans_lt ?_)
    exact Prod.Lex.lt_iff.mpr (.inl ((follows.stamp_le (.inr hx)).trans_lt hstamp))
  obtain ⟨winning, hwinning, hrefines⟩ := hpaths.decided pg (feed, path)
    (SideMeta.decision side done.stamp) coord operator site hnamed
  rw [show winning = SideMeta.decision side done.stamp from
    Option.some.inj (hwinning.symm.trans hnew), ← hdecided] at hrefines
  obtain ⟨hannounced, hown⟩ := appended_announced append hjournal hobserve
  rw [← hsha] at hannounced hown
  refine ⟨_, follows.ownDecision hstamp ?_ ?_
    (hrefines.of_same hdone.hosted hdone.conflicts hdone.resolutions) hannounced hown⟩
  · rw [← hclock]
    exact append.later
  · refine appended_clock_le append ?_
    rw [hjournal, hclock]
    exact fun e hmem => (follows.clock e hmem).trans hstamp.le

end

theorem Follows.attempt {a : Applier} {peer : String}
    (hpg : ∀ event stored, a.pg.jsonb event = some stored → stored = event)
    (hflagged : Flagged flags e) (hforeign : e.originSite ≠ site) (hturn : InTurn site s e)
    (hknown : ∀ row, s.journal.find e.key = some row → e ∈ journaled s.journal)
    (attempt : Attempt a peer e s t) :
    (∃ more, Follows flags site more t) ∧
      (journaled t.journal = journaled s.journal ∨
        journaled t.journal = insert e (journaled s.journal)) := by
  cases attempt with
  | kept same journal clock =>
    exact ⟨⟨shown, follows.keep same journal clock⟩, .inl (by rw [journal])⟩
  | @merged clock blobs stored after received event merge rest journal adopted =>
    obtain ⟨hframe, -, hclock, -⟩ := merge.frame
    obtain ⟨hpast, hmoved, -⟩ := replHlcRecv_ok received
    have hstamp : t.clock.stamp = clock.stamp := by
      rw [adopted, hclock]
    have hevent : stored = e.event := hpg _ _ (storedEvent_jsonb event)
    have hjournal : journaled t.journal = insert e (journaled s.journal) := by
      rw [journal, hframe]
      dsimp only
      cases hfind : s.journal.find e.key with
      | none =>
        rw [Table.insertNew_of_none hfind, journaled_put hfind, hevent]
        rfl
      | some row =>
        rw [Table.insertNew_of_some hfind, Set.insert_eq_of_mem (hknown row hfind)]
    have hpaths : PathsRefine flags (learn shown e) t := by
      refine PathsRefine.of_same ?_ rest.hosted rest.conflicts rest.resolutions
      refine PathsRefine.merge ?_ hflagged merge
      exact follows.paths.of_same rfl rfl rfl
    refine ⟨⟨_, follows.merge hforeign hturn hpaths hjournal ?_ ?_⟩, .inr hjournal⟩
    · rw [hstamp]
      exact hmoved
    · rw [hstamp]
      exact hpast.le

end Site

end FondacoFormal.Convergence
