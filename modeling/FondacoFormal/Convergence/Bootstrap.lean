import FondacoFormal.Convergence.Restore
import FondacoFormal.Convergence.Settled

/-!
# Bootstrap and replay

A site that imports a snapshot shows what a site shows that applied the events itself.
-/

namespace FondacoFormal.Convergence

open Library Library.Register Library.Runs State Repl Safety

/-! ## What a snapshot carries -/

/-- Of a decided path only the kept digest is carried, and no register without a name. -/
def Carried (told : Set Observation) : Observation → Prop
  | .publish key _ sha => ∀ x, IsGreatest (decisions told key) x → sha = (ofLex x).2
  | .verdict register _ _ => register.1 ≠ "" ∧ register.2.1 ≠ ""
  | _ => True

def exported (told : Set Observation) : Set Observation :=
  {o | o ∈ told ∧ Carried told o}

variable {x : HLC ×ₗ String}

section Exported

variable {told : Set Observation} {key : PathKey}

theorem decisions_exported : decisions (exported told) key = decisions told key := by
  ext x
  exact and_iff_left trivial

section

variable (hundecided : decisions told key = ∅)

include hundecided

theorem publish_exported (h : HLC) (sha : String) :
    .publish key h sha ∈ exported told ↔ .publish key h sha ∈ told := by
  refine and_iff_left ?_
  intro x hgreatest
  rw [hundecided] at hgreatest
  exact absurd hgreatest.1 (Set.notMem_empty x)

theorem digests_exported : digests (exported told) key = digests told key :=
  digests_congr (publish_exported hundecided)

theorem pointers_exported : pointers (exported told) key = pointers told key := by
  ext x
  exact publish_exported hundecided _ _

end

theorem digests_exported_decided (hgreatest : IsGreatest (decisions told key) x)
    (hkeep : (ofLex x).2 ∈ digests told key) : digests (exported told) key = {(ofLex x).2} := by
  ext sha
  constructor
  · rintro ⟨h, -, hcarried⟩
    exact hcarried x hgreatest
  · rintro rfl
    obtain ⟨h, hpublished⟩ := hkeep
    refine ⟨h, hpublished, ?_⟩
    intro y hother
    rw [hgreatest.unique hother]

end Exported

/-! ## Importing -/

section Import

variable {cat : Catalog} {told : Set Observation} {source t : SiteState}

theorem SiteRefines.exportable (refines : SiteRefines cat told source)
    (sound : ∀ o ∈ told, o.Sound) : Exportable source where
  decided := by
    intro key r hstored
    have hpath := refines.paths key
    refine ⟨?_, ?_⟩
    · intro row hrow
      obtain ⟨kept, hkept, hsha⟩ := hpath.kept r hstored
      rw [hrow] at hkept
      cases hkept
      exact ⟨hsha, (hpath.flag row hrow).trans (hpath.backed r hstored).1⟩
    · intro c hmem honpath
      refine Bool.eq_false_iff.mpr fun hopen => ?_
      rw [(hpath.status c hmem honpath).mp hopen] at hstored
      cases hstored
  conflicts := by
    intro c hmem
    have hnamed : ∀ sha, c.names sha = true → c.feed ≠ "" ∧ c.path ≠ "" ∧
      sha.utf8ByteSize = 64 := by
      intro sha hname
      have hrecorded : Recorded source c.feed c.path sha :=
        ⟨c, hmem, ConflictRow.onPath_iff.mpr ⟨rfl, rfl⟩, hname⟩
      obtain ⟨-, h, hpublished⟩ := ((refines.paths (c.feed, c.path)).named sha).mp hrecorded
      exact sound _ hpublished
    obtain ⟨hfeed, hpath, hwinner⟩ := hnamed c.winnerSha (ConflictRow.names_iff.mpr (.inl rfl))
    obtain ⟨-, -, hloser⟩ := hnamed c.loserSha (ConflictRow.names_iff.mpr (.inr rfl))
    exact ⟨hfeed, hpath, hwinner, hloser⟩
  decisions := by
    intro key row hfind
    have hdecided := (refines.paths key).decided
    unfold storedResolution at hdecided
    rw [hfind] at hdecided
    exact sound _ hdecided.mem
  revocations := fun hash hrevoked => sound _ ((refines.revoked hash).mp hrevoked)

variable (restored : Restored source t)

include restored

theorem Restored.recorded_iff {feed path sha : String} :
    Recorded t feed path sha ↔ OpenFor source feed path sha := by
  constructor
  · rintro ⟨row, hmem, hpath, hname⟩
    obtain ⟨c, hc, hopen, rfl⟩ := restored.conflicts row hmem
    exact ⟨c, hc, hpath, hopen, hname⟩
  · rintro ⟨c, hmem, hpath, hopen, hname⟩
    obtain ⟨row, hrow, hfeed, hpath', hwinner, hloser⟩ := restored.covered c hmem hopen
    obtain ⟨honfeed, honpath⟩ := ConflictRow.onPath_iff.mp hpath
    refine ⟨row, hrow, ConflictRow.onPath_iff.mpr ⟨hfeed.trans honfeed, hpath'.trans honpath⟩, ?_⟩
    rw [ConflictRow.names_iff] at hname ⊢
    exact hname.imp hwinner.trans hloser.trans

theorem Restored.pathRefines (refines : SiteRefines cat told source) (key : PathKey) :
    PathRefines cat.mutable (exported told) t key := by
  have hpath := refines.paths key
  have hstored := restored.stored key
  have hheld := hpath.decided
  have hopen : ∀ sha, Recorded t key.1 key.2 sha ↔ storedResolution source key.1 key.2 = none ∧
      Contested cat.mutable told key ∧ sha ∈ digests told key :=
    fun sha => restored.recorded_iff.trans (hpath.openFor_iff sha)
  have hundecided : storedResolution source key.1 key.2 = none → decisions told key = ∅ := by
    intro hnone
    rw [hnone] at hheld
    exact hheld
  have hgreatest : ∀ r, storedResolution source key.1 key.2 = some r →
      IsGreatest (decisions told key) (decisionOf r) := by
    intro r hsome
    rw [hsome] at hheld
    exact hheld
  have hshown : (t.hosted.find key).map HostedRow.sha256 =
      (source.hosted.find key).map HostedRow.sha256 := by
    cases hfind : source.hosted.find key with
    | none => rw [restored.absent key hfind]
    | some row =>
      obtain ⟨imported, himported, serves⟩ := restored.rows key row hfind
      rw [himported]
      exact congrArg some serves.sha
  refine
    { flag := ?_
      decided := by rw [hstored, decisions_exported]; exact hheld
      backed := ?_
      kept := ?_
      newest := ?_
      lowest := ?_
      named := ?_
      status := ?_ }
  · intro imported himported
    cases hfind : source.hosted.find key with
    | none =>
      rw [restored.absent key hfind] at himported
      cases himported
    | some row =>
      obtain ⟨other, hother, serves⟩ := restored.rows key row hfind
      rw [himported] at hother
      cases hother
      exact serves.mutable.trans (hpath.flag row hfind)
  · intro r hsome
    rw [hstored] at hsome
    obtain ⟨himmutable, hkeep⟩ := hpath.backed r hsome
    refine ⟨himmutable, ?_⟩
    rw [digests_exported_decided (hgreatest r hsome) hkeep]
    rfl
  · intro r hsome
    rw [hstored] at hsome
    obtain ⟨row, hrow, hsha⟩ := hpath.kept r hsome
    obtain ⟨imported, himported, serves⟩ := restored.rows key row hrow
    exact ⟨imported, himported, serves.sha.trans hsha⟩
  · intro hmutable
    have hnone : storedResolution source key.1 key.2 = none := by
      cases hsome : storedResolution source key.1 key.2 with
      | none => rfl
      | some r =>
        have himmutable := (hpath.backed r hsome).1
        rw [hmutable] at himmutable
        cases himmutable
    rw [pointers_exported (hundecided hnone)]
    have hnewest := hpath.newest hmutable
    cases hfind : source.hosted.find key with
    | none =>
      rw [hfind] at hnewest
      rw [restored.absent key hfind]
      exact hnewest
    | some row =>
      obtain ⟨imported, himported, serves⟩ := restored.rows key row hfind
      have hstamp := serves.stamp ((hpath.flag row hfind).trans hmutable)
      have hpointer : pointerOf imported = pointerOf row := by
        unfold pointerOf
        rw [hstamp, serves.sha]
        rfl
      rw [hfind] at hnewest
      rw [himported, Option.map_some, hpointer]
      exact hnewest
  · intro himmutable hnone
    rw [hstored] at hnone
    have hlowest := hpath.lowest himmutable hnone
    have hdual := congrArg (Option.map OrderDual.toDual) hshown
    rw [Option.map_map, Option.map_map] at hdual
    rw [digests_exported (hundecided hnone)]
    exact hdual ▸ hlowest
  · intro sha
    rw [hopen]
    cases hsome : storedResolution source key.1 key.2 with
    | none =>
      unfold Contested
      rw [digests_exported (hundecided hsome)]
      exact and_iff_right rfl
    | some r =>
      refine iff_of_false nofun ?_
      rintro ⟨⟨-, hmany⟩, -⟩
      rw [digests_exported_decided (hgreatest r hsome) (hpath.backed r hsome).2] at hmany
      exact Set.not_nontrivial_singleton hmany
  · intro row hmem honpath
    obtain ⟨c, hc, hcopen, rfl⟩ := restored.conflicts row hmem
    rw [hstored]
    exact iff_of_true rfl ((hpath.status c hc honpath).mp hcopen)

theorem Restored.siteRefines (refines : SiteRefines cat told source) (sound : ∀ o ∈ told, o.Sound) :
    SiteRefines cat (exported told) t where
  paths := restored.pathRefines refines
  registers := by
    intro register hreason
    rw [restored.registers register hreason]
    by_cases himportable : Importable register
    · have hsame : verdicts (exported told) register = verdicts told register := by
        ext x
        exact and_iff_left ⟨himportable.1, himportable.2.1⟩
      rw [if_pos himportable, hsame]
      exact refines.registers register hreason
    · rw [if_neg himportable]
      refine Set.eq_empty_iff_forall_notMem.mpr ?_
      rintro x ⟨hmem, hfeed, hcoordinate⟩
      exact himportable ⟨hfeed, hcoordinate, (sound _ hmem).1, hreason⟩
  revoked := by
    intro hash
    rw [restored.revocations hash, refines.revoked hash]
    exact (and_iff_left trivial).symm
  coords := by
    intro row hmem
    obtain ⟨c, hc, -, rfl⟩ := restored.conflicts row hmem
    exact refines.coords c hc
  blocks := restored.blocks

end Import

/-! ## Further events -/

/--
What was left behind does not matter to the news: whatever was not founded comes
again, and a decision for a decided path is founded on the news and the kept digest
if it is founded at all.
-/
structure Independent (flags : PathKey → Bool) (past news : Set Observation) : Prop where
  repeated : ∀ o ∈ past, ¬ Founded flags past o → o ∈ news
  refounded : ∀ key h sha x, .decision key h sha ∈ news →
    IsGreatest (decisions (settle flags ∅ past) key) x → sha ∈ digests (past ∪ news) key →
    (insert (ofLex x).2 (digests news key)).Nontrivial ∧
      sha ∈ insert (ofLex x).2 (digests news key)

section Further

variable {flags : PathKey → Bool} {past news : Set Observation} {key : PathKey}

theorem mem_settle_empty {o : Observation} :
    o ∈ settle flags ∅ past ↔ o ∈ past ∧ Founded flags past o := by
  unfold settle
  rw [Set.empty_union, Set.empty_union]
  exact Iff.rfl

theorem digests_union (told more : Set Observation) :
    digests (told ∪ more) key = digests told key ∪ digests more key := by
  ext sha
  exact exists_or

theorem digests_settle_empty : digests (settle flags ∅ past) key = digests past key :=
  digests_congr fun _ _ => mem_settle_empty.trans (and_iff_left trivial)

theorem undecided_of_mutable (hmutable : flags key = true) :
    decisions (settle flags ∅ past) key = ∅ := by
  refine Set.eq_empty_iff_forall_notMem.mpr fun x hmem => ?_
  exact contested_of_mutable hmutable (mem_settle_empty.mp hmem).2.1

theorem kept_published (hgreatest : IsGreatest (decisions (settle flags ∅ past) key) x) :
    (ofLex x).2 ∈ digests (settle flags ∅ past) key := by
  rw [digests_settle_empty]
  exact (mem_settle_empty.mp hgreatest.1).2.2

theorem exported_settle_subset : exported (settle flags ∅ past) ⊆ past :=
  fun _ hmem => (mem_settle_empty.mp hmem.1).1

theorem publish_settle_iff (hundecided : decisions (settle flags ∅ past) key = ∅) (h : HLC)
    (sha : String) :
    .publish key h sha ∈ settle flags (exported (settle flags ∅ past)) news ↔
      .publish key h sha ∈ settle flags ∅ (past ∪ news) := by
  refine Iff.trans ?_ mem_settle_empty.symm
  refine Iff.trans (or_congr (publish_exported hundecided h sha) (and_iff_left trivial)) ?_
  rw [mem_settle_empty]
  exact (or_congr_left (and_iff_left trivial)).trans (and_iff_left trivial).symm

section

variable (independent : Independent flags past news)

include independent

section

variable (hheld : ∃ held, Holds (decisions (settle flags ∅ past) key) held)

include hheld

/-- A decision is founded at the site that imported exactly when it is at the other. -/
theorem Independent.founded_iff {h : HLC} {sha : String} (hnews : .decision key h sha ∈ news) :
    Founded flags (exported (settle flags ∅ past) ∪ news) (.decision key h sha) ↔
      Founded flags (past ∪ news) (.decision key h sha) := by
  constructor
  · intro hfounded
    exact hfounded.mono (Set.union_subset_union_left news exported_settle_subset)
  · rintro ⟨⟨himmutable, hmany⟩, hpublished⟩
    rw [Founded, Contested, digests_union]
    rw [digests_union] at hmany
    obtain ⟨held, hheld⟩ := hheld
    cases held with
    | none =>
      rw [digests_exported hheld, digests_settle_empty]
      rw [digests_union] at hpublished
      exact ⟨⟨himmutable, hmany⟩, hpublished⟩
    | some x =>
      obtain ⟨hcontested, hknown⟩ := independent.refounded key h sha x hnews hheld hpublished
      rw [digests_exported_decided hheld (kept_published hheld), Set.singleton_union]
      exact ⟨⟨himmutable, hcontested⟩, hknown⟩

theorem Independent.decided :
    decisions (settle flags (exported (settle flags ∅ past)) news) key =
      decisions (settle flags ∅ (past ∪ news)) key := by
  ext x
  refine Iff.trans ?_ mem_settle_empty.symm
  constructor
  · rintro (hcarried | ⟨hnews, hfounded⟩)
    · obtain ⟨hpast, hfounded⟩ := mem_settle_empty.mp hcarried.1
      exact ⟨.inl hpast, hfounded.mono Set.subset_union_left⟩
    · exact ⟨.inr hnews, (independent.founded_iff hheld hnews).mp hfounded⟩
  · rintro ⟨hmem, hfounded⟩
    -- A decision of the past that was not founded then is among the news.
    by_cases hsettled : .decision key (ofLex x).1 (ofLex x).2 ∈ settle flags ∅ past
    · exact .inl ⟨hsettled, trivial⟩
    · have hnews : .decision key (ofLex x).1 (ofLex x).2 ∈ news := by
        refine hmem.elim (fun hpast => independent.repeated _ hpast ?_) id
        exact fun hold => hsettled (mem_settle_empty.mpr ⟨hpast, hold⟩)
      exact .inr ⟨hnews, (independent.founded_iff hheld hnews).mpr hfounded⟩

end

theorem Independent.alike (hheld : ∀ key, ∃ held, Holds (decisions (settle flags ∅ past) key) held)
    (sound : ∀ o ∈ past ∪ news, o.Sound) :
    Alike flags (settle flags (exported (settle flags ∅ past)) news)
      (settle flags ∅ (past ∪ news)) := by
  refine ⟨fun key => independent.decided (hheld key), ?_, ?_, ?_, ?_⟩
  · intro key hmutable
    ext x
    exact publish_settle_iff (undecided_of_mutable hmutable) _ _
  · intro key hnone
    have hundecided : decisions (settle flags ∅ past) key = ∅ := by
      refine Set.eq_empty_iff_forall_notMem.mpr fun x hmem => ?_
      exact Set.eq_empty_iff_forall_notMem.mp hnone x (.inl ⟨hmem, trivial⟩)
    exact digests_congr (publish_settle_iff hundecided)
  · intro register
    have hleft : ∀ x, x ∈ verdicts (settle flags (exported (settle flags ∅ past)) news) register ↔
        (.verdict register (ofLex x).1 (ofLex x).2 ∈ past ∧ register.1 ≠ "" ∧ register.2.1 ≠ "") ∨
          .verdict register (ofLex x).1 (ofLex x).2 ∈ news := by
      intro x
      refine or_congr (and_congr_left fun _ => ?_) (and_iff_left trivial)
      exact mem_settle_empty.trans (and_iff_left trivial)
    have hright : ∀ x, x ∈ verdicts (settle flags ∅ (past ∪ news)) register ↔
        .verdict register (ofLex x).1 (ofLex x).2 ∈ past ∪ news :=
      fun x => mem_settle_empty.trans (and_iff_left trivial)
    by_cases hnamed : register.1 ≠ "" ∧ register.2.1 ≠ ""
    · refine .inl (Set.ext fun x => ?_)
      rw [hleft, hright]
      exact or_congr_left (and_iff_left hnamed)
    · refine .inr fun x hmem => ?_
      have htold : .verdict register (ofLex x).1 (ofLex x).2 ∈ past ∪ news := by
        rcases hmem with hmem | hmem
        · exact ((hleft x).mp hmem).imp And.left id
        · exact (hright x).mp hmem
      exact Bool.eq_false_iff.mpr fun hactive => hnamed ((sound _ htold).2 hactive)
  · intro hash
    refine Iff.trans ?_ mem_settle_empty.symm
    refine Iff.trans (or_congr (and_iff_left trivial) (and_iff_left trivial)) ?_
    rw [mem_settle_empty]
    exact (or_congr_left (and_iff_left trivial)).trans (and_iff_left trivial).symm

end

theorem exported_alike (sound : ∀ o ∈ past, o.Sound) :
    Alike flags (exported (settle flags ∅ past)) (settle flags ∅ past) := by
  refine ⟨fun key => decisions_exported, ?_, ?_, ?_, fun hash => and_iff_left trivial⟩
  · intro key hmutable
    exact pointers_exported (undecided_of_mutable hmutable)
  · intro key hnone
    rw [decisions_exported] at hnone
    exact digests_exported hnone
  · intro register
    by_cases hnamed : register.1 ≠ "" ∧ register.2.1 ≠ ""
    · exact .inl (Set.ext fun x => and_iff_left hnamed)
    · refine .inr fun x hmem => ?_
      have htold : .verdict register (ofLex x).1 (ofLex x).2 ∈ settle flags ∅ past :=
        hmem.elim And.left id
      refine Bool.eq_false_iff.mpr fun hactive => hnamed ?_
      exact (sound _ (mem_settle_empty.mp htold).1).2 hactive

end Further

/-! ## Runs -/

/--
A run of a site in which every statement is accepted and every publish's bytes can be
fetched, and which ends where retrying moves nothing.
-/
structure SettledRun (a : Applier) (ops : List SyncOp) (s : SiteState) : Prop where
  fetchable : ∀ e ∈ sentBy ops, Fetchable a e
  addressed : ∀ op ∈ ops, op.Addressed
  fits : Meets (SyncOp.run a) (SyncFits a) ops s
  quiet : Quiet a (runAll (SyncOp.run a) ops s)

/--
The further events do not refer to what a snapshot of the source leaves behind: what
is parked there comes again, and a decision for a decided path that names a published
digest names the kept one or one that comes again, and the kept one is contested anew.
-/
structure SelfContained (source : SiteState) (past further : Set JournalEntry) : Prop where
  parked : ∀ row ∈ source.parked, row.entry ∈ further
  decided : ∀ e ∈ further, ∀ p, e.event = .conflictResolve (.ok p) →
    ∀ r, storedResolution source p.feed p.path = some r →
      p.keepSha ∈ digests (heard (past ∪ further)) (p.feed, p.path) →
        (insert r.keepSha (digests (heard further) (p.feed, p.path))).Nontrivial ∧
          p.keepSha ∈ insert r.keepSha (digests (heard further) (p.feed, p.path))

section Runs

variable {a : Applier} {cat : Catalog} {base : Set Observation} {bytes : Finset String}
  {s : SiteState} {sent applied further : Set JournalEntry} {ops : List SyncOp}

theorem SettledRun.settled (run : SettledRun a ops s)
    (synced : Synced a cat base bytes sent applied s)
    (hevents : EventSet a cat (sent ∪ sentBy ops)) (hfetch : ∀ e ∈ sent, Fetchable a e) :
    ∃ more, Synced a cat base bytes (sent ∪ sentBy ops) more (runAll (SyncOp.run a) ops s) ∧
      base ∪ observed more = settle cat.mutable base (heard (sent ∪ sentBy ops)) := by
  obtain ⟨more, hsynced⟩ := synced.run hevents Set.subset_union_left Set.subset_union_right
    run.addressed run.fits
  refine ⟨more, hsynced, hsynced.settled run.quiet hevents.named ?_⟩
  rintro e (hold | hnew)
  · exact hfetch e hold
  · exact run.fetchable e hnew

theorem SettledRun.fromEmpty (run : SettledRun a ops { blobs := bytes })
    (hevents : EventSet a cat (sentBy ops)) :
    ∃ more, Synced a cat ∅ bytes (sentBy ops) more
        (runAll (SyncOp.run a) ops { blobs := bytes }) ∧
      ∅ ∪ observed more = settle cat.mutable ∅ (heard (sentBy ops)) := by
  have hunion : ∅ ∪ sentBy ops = sentBy ops := Set.empty_union _
  rw [← hunion] at hevents ⊢
  exact run.settled (Synced.initial a cat bytes) hevents fun e hmem => nomatch hmem

/-- What the source left behind does not matter to further events that are self-contained. -/
theorem SelfContained.independent (contained : SelfContained s sent further)
    (synced : Synced a cat ∅ bytes sent applied s)
    (hsettled : ∅ ∪ observed applied = settle cat.mutable ∅ (heard sent)) :
    Independent cat.mutable (heard sent) (heard further) := by
  refine ⟨?_, ?_⟩
  · rintro o ⟨e, hsent, hadmissible, hobserve⟩ hunfounded
    rcases synced.covered e hsent with happlied | ⟨row, hrow, rfl⟩
    · have hknown : o ∈ ∅ ∪ observed applied := .inr ⟨e, happlied, hobserve⟩
      rw [hsettled] at hknown
      exact absurd (mem_settle_empty.mp hknown).2 hunfounded
    · exact ⟨row.entry, contained.parked row hrow, hadmissible, hobserve⟩
  · rintro key h sha x ⟨e, hmem, -, hobserve⟩ hgreatest hpublished
    obtain ⟨p, body, rfl, rfl, rfl⟩ : ∃ p, e.event = .conflictResolve (.ok p) ∧
        (p.feed, p.path) = key ∧ e.hlc = h ∧ p.keepSha = sha := by
      unfold observe at hobserve
      split at hobserve <;> cases hobserve
      exact ⟨_, by assumption, rfl, rfl, rfl⟩
    have hheld := (synced.refines.paths (p.feed, p.path)).decided
    rw [hsettled] at hheld
    have hkept : Holds (decisions (settle cat.mutable ∅ (heard sent)) (p.feed, p.path)) (some x) :=
      hgreatest
    have hstored : (storedResolution s p.feed p.path).map decisionOf = some x := hheld.unique hkept
    obtain ⟨r, hr, rfl⟩ := Option.map_eq_some_iff.mp hstored
    rw [← heard_union] at hpublished
    exact contained.decided e hmem p body r hr hpublished

end Runs

/--
Snapshot bootstrap is equivalent to journal replay.  A source that has settled what it
was sent is imported by one fresh site, while another is sent the same events in any
order.  The two agree at once, and still agree after each has settled the same further
events, if these do not refer to what the snapshot left behind.
-/
theorem bootstrap_equals_replay (src a b : Applier) (cat : Catalog) (uuid : String)
    (sourceBytes importedBytes replayedBytes : Finset String) (original replay : List SyncOp)
    (source imported replayed : SiteState)
    (hsource : runAll (SyncOp.run src) original { blobs := sourceBytes } = source)
    (hreplayed : runAll (SyncOp.run b) replay { blobs := replayedBytes } = replayed)
    (hdone : (bootstrap a src.site (handleSnapshot src.site uuid source)
      { blobs := importedBytes }).fault = none)
    (himported : (bootstrap a src.site (handleSnapshot src.site uuid source)
      { blobs := importedBytes }).state = imported)
    (sourceEvents : EventSet src cat (sentBy original))
    (replayedEvents : EventSet b cat (sentBy replay)) (hsame : sentBy replay = sentBy original)
    (originalRun : SettledRun src original { blobs := sourceBytes })
    (replayRun : SettledRun b replay { blobs := replayedBytes }) :
    AgreeOpen imported replayed ∧
      ∀ later more : List SyncOp, EventSet a cat (sentBy later) →
        EventSet b cat (sentBy replay ∪ sentBy more) → sentBy more = sentBy later →
        SettledRun a later imported → SettledRun b more replayed →
        SelfContained source (sentBy original) (sentBy later) →
          AgreeOpen (runAll (SyncOp.run a) later imported)
            (runAll (SyncOp.run b) more replayed) := by
  obtain ⟨applied, sourceSynced, sourceSettled⟩ := originalRun.fromEmpty sourceEvents
  obtain ⟨again, replaySynced, replaySettled⟩ := replayRun.fromEmpty replayedEvents
  rw [hsource] at sourceSynced
  rw [hreplayed] at replaySynced
  rw [hsame] at replaySettled
  have sourceRefines := sourceSynced.refines
  rw [sourceSettled] at sourceRefines
  have replayRefines := replaySynced.refines
  rw [replaySettled] at replayRefines
  have hsound : ∀ o ∈ settle cat.mutable ∅ (heard (sentBy original)), o.Sound :=
    fun o hmem => heard_sound (mem_settle_empty.mp hmem).1
  have restored := bootstrap_restored (sourceRefines.exportable hsound) hdone
  rw [himported] at restored
  have importedRefines := restored.siteRefines sourceRefines hsound
  refine ⟨importedRefines.agreeOpen replayRefines (exported_alike fun o hmem => heard_sound hmem),
    ?_⟩
  intro later more laterEvents moreEvents hlater laterRun moreRun contained
  have hempty : ∅ ∪ sentBy later = sentBy later := Set.empty_union _
  rw [← hempty] at laterEvents
  obtain ⟨news, newsSynced, newsSettled⟩ := laterRun.settled
    (Synced.start a importedRefines restored.journal restored.parked) laterEvents
    fun e hmem => nomatch hmem
  obtain ⟨whole, wholeSynced, wholeSettled⟩ := moreRun.settled replaySynced moreEvents
    replayRun.fetchable
  have newsRefines := newsSynced.refines
  rw [newsSettled, hempty] at newsRefines
  have wholeRefines := wholeSynced.refines
  rw [wholeSettled, hsame, hlater, heard_union] at wholeRefines
  refine newsRefines.agreeOpen wholeRefines ?_
  refine (contained.independent sourceSynced sourceSettled).alike ?_ ?_
  · exact fun key => ⟨_, (sourceRefines.paths key).decided⟩
  · rintro o (hold | hnew)
    · exact heard_sound hold
    · exact heard_sound hnew

/-! ## A path that is decided -/

def decidedPath : List SyncOp :=
  [.deliver 1000 0 "east" [samplePut "east" 'a' 1000],
    .deliver 1000 0 "west" [samplePut "west" 'b' 2000],
    .deliver 1000 0 "east" [sampleDecision 'b']]

def laterPut : JournalEntry :=
  ⟨"west", 2, .manifestPut (.ok
    { feed := "npm", path := "pkg/1.tgz", coord := "pkg@1", sha256 := digestOf 'c', size := 10 }),
    ⟨5000, 0⟩, 1⟩

def laterDecision (c : Char) : JournalEntry :=
  ⟨"east", 3, .conflictResolve (.ok ⟨"npm", "pkg/1.tgz", "pkg@1", digestOf c, "op"⟩), ⟨6000, 0⟩, 1⟩

def redecidedPath : List SyncOp :=
  [.deliver 1000 0 "west" [laterPut], .deliver 1000 0 "east" [laterDecision 'c']]

def decidedSource : SiteState :=
  runAll (SyncOp.run (lazyApplier "south" 1000)) decidedPath {}

def decidedImport : Outcome :=
  bootstrap (lazyApplier "north" 1000) "south" (handleSnapshot "south" "" decidedSource) {}

def decidedReplay : SiteState :=
  runAll (SyncOp.run (lazyApplier "center" 1000)) decidedPath {}

theorem sentBy_decidedPath : sentBy decidedPath =
    {e | e ∈ [samplePut "east" 'a' 1000, samplePut "west" 'b' 2000, sampleDecision 'b']} := by
  ext e
  simp [sentBy, SyncOp.sends, decidedPath]

theorem sentBy_redecidedPath : sentBy redecidedPath = {e | e ∈ [laterPut, laterDecision 'c']} := by
  ext e
  simp [sentBy, SyncOp.sends, redecidedPath]

variable {site : String}

def sampleJournal : List JournalEntry :=
  [samplePut "east" 'a' 1000, samplePut "west" 'b' 2000, sampleDecision 'b', laterPut,
    laterDecision 'a', laterDecision 'c']

theorem sampleEvents {events : List JournalEntry} (hlisted : ∀ e ∈ events, e ∈ sampleJournal)
    (hkeyed : ∀ e ∈ events, ∀ other ∈ events, e.key = other.key → e = other)
    (hsite : site ∉ ["east", "west"]) :
    EventSet (lazyApplier site 1000) onePackage {e | e ∈ events} := by
  have hall : ∀ e ∈ sampleJournal, Catalogued onePackage e := by
    simp only [sampleJournal, List.forall_mem_cons]
    exact ⟨⟨rfl, rfl⟩, ⟨rfl, rfl⟩, rfl, ⟨rfl, rfl⟩, rfl, rfl, List.forall_mem_nil _⟩
  have hnames : ∀ e ∈ sampleJournal, e.originSite ∈ ["east", "west"] := by
    decide
  refine .ofList hkeyed (fun e hmem => hall e (hlisted e hmem)) (fun e _ => rfl) ?_ ?_
  · intro e hmem heq
    have hname := hnames e (hlisted e hmem)
    rw [heq] at hname
    exact hsite hname
  · intro e hmem heq
    have hname := hnames e (hlisted e hmem)
    rw [heq] at hname
    revert hname
    decide

theorem sampleEvents_union {events further : List JournalEntry}
    (hlisted : ∀ e ∈ events ++ further, e ∈ sampleJournal)
    (hkeyed : ∀ e ∈ events ++ further, ∀ other ∈ events ++ further, e.key = other.key → e = other)
    (hsite : site ∉ ["east", "west"]) :
    EventSet (lazyApplier site 1000) onePackage ({e | e ∈ events} ∪ {e | e ∈ further}) := by
  have hunion : {e | e ∈ events} ∪ {e | e ∈ further} = {e | e ∈ events ++ further} := by
    ext e
    exact List.mem_append.symm
  rw [hunion]
  exact sampleEvents hlisted hkeyed hsite

theorem lazy_settledRun {ops : List SyncOp} {s : SiteState} (haddressed : ∀ op ∈ ops, op.Addressed)
    (hfits : Meets (SyncOp.run (lazyApplier site 1000)) (SyncFits (lazyApplier site 1000)) ops s)
    (hquiet : Quiet (lazyApplier site 1000) (runAll (SyncOp.run (lazyApplier site 1000)) ops s)) :
    SettledRun (lazyApplier site 1000) ops s where
  fetchable := fun _ _ _ _ heager => nomatch heager
  addressed := haddressed
  fits := hfits
  quiet := hquiet

theorem decidedPath_settled (hsite : site = "south" ∨ site = "center") :
    SettledRun (lazyApplier site 1000) decidedPath {} := by
  rcases hsite with rfl | rfl <;>
  exact lazy_settledRun (by decide) ⟨⟨lazy_settles rfl trivial (by decide), trivial⟩,
    ⟨lazy_settles rfl trivial (by decide), trivial⟩,
    ⟨lazy_settles rfl trivial (by decide), trivial⟩, trivial⟩ (quiet_of_unparked rfl)

theorem decidedPath_events (hsite : site = "south" ∨ site = "center") :
    EventSet (lazyApplier site 1000) onePackage (sentBy decidedPath) := by
  rw [sentBy_decidedPath]
  rcases hsite with rfl | rfl <;> exact sampleEvents (by decide) (by decide) (by decide)

/-- A third digest and the decision for it come to both sites. -/
theorem bootstrap_equals_replay_redecidedPath :
    AgreeOpen (runAll (SyncOp.run (lazyApplier "north" 1000)) redecidedPath decidedImport.state)
      (runAll (SyncOp.run (lazyApplier "center" 1000)) redecidedPath decidedReplay) := by
  have contained : SelfContained decidedSource (sentBy decidedPath) (sentBy redecidedPath) := by
    refine ⟨fun row hrow => (nomatch hrow), ?_⟩
    rw [sentBy_redecidedPath]
    intro e hmem p body r hstored hpublished
    have hnew : digestOf 'c' ∈
        digests (heard {e | e ∈ [laterPut, laterDecision 'c']}) ("npm", "pkg/1.tgz") :=
      ⟨⟨5000, 0⟩, laterPut, List.mem_cons_self,
        show _ ∧ _ ∧ _ from ⟨by decide, by decide, by decide⟩, rfl⟩
    rcases List.mem_cons.mp hmem with rfl | hlast
    · cases body
    · rw [List.mem_singleton.mp hlast] at body
      cases body
      have hkeep : r.keepSha = digestOf 'b' :=
        (Option.some.inj ((congrArg (Option.map Resolution.keepSha) hstored).symm.trans rfl))
      rw [hkeep]
      exact ⟨⟨digestOf 'b', .inl rfl, digestOf 'c', .inr hnew, by decide⟩, .inr hnew⟩
  refine (bootstrap_equals_replay (lazyApplier "south" 1000) (lazyApplier "north" 1000)
    (lazyApplier "center" 1000) onePackage "" ∅ ∅ ∅ decidedPath decidedPath decidedSource
    decidedImport.state decidedReplay rfl rfl (by decide) rfl (decidedPath_events (.inl rfl))
    (decidedPath_events (.inr rfl)) rfl (decidedPath_settled (.inl rfl))
    (decidedPath_settled (.inr rfl))).2 redecidedPath redecidedPath ?_ ?_ rfl ?_ ?_ contained
  · rw [sentBy_redecidedPath]
    exact sampleEvents (by decide) (by decide) (by decide)
  · rw [sentBy_redecidedPath, sentBy_decidedPath]
    exact sampleEvents_union (by decide) (by decide) (by decide)
  all_goals
    exact lazy_settledRun (by decide) ⟨⟨lazy_settles rfl trivial (by decide), trivial⟩,
      ⟨lazy_settles rfl trivial (by decide), trivial⟩, trivial⟩ (quiet_of_unparked rfl)

def overruledPath : List SyncOp :=
  [.deliver 1000 0 "east" [laterDecision 'a']]

theorem sentBy_overruledPath : sentBy overruledPath = {e | e ∈ [laterDecision 'a']} := by
  ext e
  simp [sentBy, SyncOp.sends, overruledPath]

/--
Closed conflicts are not in the snapshot, so the site that imported it parks a later
decision for the digest that lost, while the site that replayed the events adopts it.
-/
theorem lost_digest_diverges :
    decidedImport.fault = none ∧
    EventSet (lazyApplier "south" 1000) onePackage (sentBy decidedPath) ∧
    EventSet (lazyApplier "center" 1000) onePackage (sentBy decidedPath ∪ sentBy overruledPath) ∧
    EventSet (lazyApplier "north" 1000) onePackage (sentBy overruledPath) ∧
    SettledRun (lazyApplier "south" 1000) decidedPath {} ∧
    SettledRun (lazyApplier "center" 1000) decidedPath {} ∧
    SettledRun (lazyApplier "north" 1000) overruledPath decidedImport.state ∧
    SettledRun (lazyApplier "center" 1000) overruledPath decidedReplay ∧
    ¬ AgreeOpen
      (runAll (SyncOp.run (lazyApplier "north" 1000)) overruledPath decidedImport.state)
      (runAll (SyncOp.run (lazyApplier "center" 1000)) overruledPath decidedReplay) := by
  refine ⟨by decide, decidedPath_events (.inl rfl), ?_, ?_, decidedPath_settled (.inl rfl),
    decidedPath_settled (.inr rfl), ?_, ?_, ?_⟩
  · rw [sentBy_decidedPath, sentBy_overruledPath]
    exact sampleEvents_union (by decide) (by decide) (by decide)
  · rw [sentBy_overruledPath]
    exact sampleEvents (by decide) (by decide) (by decide)
  · refine lazy_settledRun (by decide) ⟨⟨lazy_settles rfl trivial (by decide), trivial⟩, trivial⟩
      (quiet_of_parked 1000 0 rfl ?_ rfl)
    exact fun _ => ⟨rfl, by decide, fun _ => ⟨trivial, rfl⟩⟩
  · exact lazy_settledRun (by decide) ⟨⟨lazy_settles rfl trivial (by decide), trivial⟩, trivial⟩
      (quiet_of_unparked rfl)
  · intro hagree
    have hrow := hagree.rows ("npm", "pkg/1.tgz")
    revert hrow
    decide

end FondacoFormal.Convergence
