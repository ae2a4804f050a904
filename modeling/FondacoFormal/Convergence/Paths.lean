import FondacoFormal.Convergence.Observed

/-!
# Merging keeps the paths in step

Every merged event adds its observation to what the rows, conflicts and decisions
of the paths show.  Nothing is asked of the events but that a path is always
published with the same flag.
-/

namespace FondacoFormal.Convergence

open Library Library.Register State Repl Safety

def observe (e : JournalEntry) : Option Observation :=
  match e.event with
  | .manifestPut (.ok p) => some (.publish (p.feed, p.path) e.hlc p.sha256)
  | .conflictResolve (.ok p) => some (.decision (p.feed, p.path) e.hlc p.keepSha)
  | .quarantineSet (.ok p) => some (.verdict (p.feed, p.coordinate, p.reason) e.hlc true)
  | .quarantineRelease (.ok p) =>
    some (.verdict (p.feed, p.coordinate, QuarantineRelease.effectiveReason p) e.hlc false)
  | .tokenRevoke (.ok p) => some (.revocation p.hash)
  | _ => none

def learn (told : Set Observation) (e : JournalEntry) : Set Observation :=
  {o | o ∈ told ∨ observe e = some o}

variable {e : JournalEntry} {told : Set Observation} {o : Observation}

theorem learn_some (hobserve : observe e = some o) : learn told e = insert o told := by
  ext x
  simp only [learn, hobserve, Set.mem_insert_iff, Set.mem_ofPred_eq, Option.some.injEq]
  rw [or_comm, eq_comm]

theorem learn_none (hobserve : observe e = none) : learn told e = told := by
  ext x
  simp [learn, hobserve]

def observed (applied : Set JournalEntry) : Set Observation :=
  {o | ∃ e ∈ applied, observe e = some o}

theorem observed_insert (e : JournalEntry) (applied : Set JournalEntry) :
    observed (insert e applied) = learn (observed applied) e := by
  ext o
  constructor
  · rintro ⟨other, rfl | hmem, hobserve⟩
    · exact .inr hobserve
    · exact .inl ⟨other, hmem, hobserve⟩
  · rintro (⟨other, hmem, hobserve⟩ | hobserve)
    · exact ⟨other, .inr hmem, hobserve⟩
    · exact ⟨e, .inl rfl, hobserve⟩

theorem observed_mono {applied more : Set JournalEntry} (hsub : applied ⊆ more) :
    observed applied ⊆ observed more := by
  rintro o ⟨e, hmem, hobserve⟩
  exact ⟨e, hsub hmem, hobserve⟩

theorem union_learn (base told : Set Observation) (e : JournalEntry) :
    base ∪ learn told e = learn (base ∪ told) e := by
  ext o
  exact or_assoc.symm

theorem observed_empty : observed ∅ = ∅ := by
  ext o
  constructor
  · rintro ⟨e, hmem, -⟩
    exact hmem
  · intro hmem
    exact absurd hmem (Set.notMem_empty o)

theorem observe_put {p : ManifestPut} (body : e.event = .manifestPut (.ok p)) :
    observe e = some (.publish (p.feed, p.path) e.hlc p.sha256) := by
  unfold observe
  rw [body]

def Observation.path? : Observation → Option PathKey
  | publish key _ _ => some key
  | decision key _ _ => some key
  | verdict _ _ _ => none
  | revocation _ => none

def Flagged (flags : PathKey → Bool) (e : JournalEntry) : Prop :=
  ∀ p, e.event = .manifestPut (.ok p) → p.mutable = flags (p.feed, p.path)

def PathsRefine (flags : PathKey → Bool) (told : Set Observation) (s : SiteState) : Prop :=
  ∀ key, PathRefines flags told s key

section Frame

variable {flags : PathKey → Bool} {told : Set Observation} {s t : SiteState} {key : PathKey}
  {o : Observation}

theorem insert_elsewhere (told : Set Observation) (habout : o.path? ≠ some key) :
    pointers (insert o told) key = pointers told key ∧
      digests (insert o told) key = digests told key ∧
      decisions (insert o told) key = decisions told key := by
  refine ⟨?_, ?_, ?_⟩
  · ext x
    refine or_iff_right ?_
    rintro rfl
    exact habout rfl
  · ext sha
    refine exists_congr fun h => or_iff_right ?_
    rintro rfl
    exact habout rfl
  · ext x
    refine or_iff_right ?_
    rintro rfl
    exact habout rfl

section

variable (refines : PathsRefine flags told s)

include refines

theorem PathsRefine.atPath (habout : o.path? = some key)
    (hown : PathRefines flags (insert o told) t key)
    (hrows : ∀ other, other ≠ key → t.hosted.find other = s.hosted.find other)
    (hstored : ∀ other, other ≠ key →
      storedResolution t other.1 other.2 = storedResolution s other.1 other.2)
    (hconflicts : ∀ c, c.onPath key.1 key.2 = false → (c ∈ t.conflicts ↔ c ∈ s.conflicts)) :
    PathsRefine flags (insert o told) t := by
  intro other
  by_cases heq : other = key
  · rw [heq]
    exact hown
  · have hothers : o.path? ≠ some other := by
      rw [habout]
      exact fun hsame => heq (Option.some.inj hsame).symm
    obtain ⟨hpointers, hdigests, hdecisions⟩ := insert_elsewhere told hothers
    refine (refines other).congr (hrows other heq) (hstored other heq) ?_
      (fun _ => hpointers) hdigests hdecisions
    intro c hpath
    refine hconflicts c (Bool.eq_false_iff.mpr ?_)
    intro hkey
    obtain ⟨hfeed, hpath⟩ := ConflictRow.onPath_iff.mp hpath
    obtain ⟨hfeed', hpath'⟩ := ConflictRow.onPath_iff.mp hkey
    exact heq (Prod.ext (hfeed.symm.trans hfeed') (hpath.symm.trans hpath'))

theorem PathsRefine.offPath (habout : o.path? = none) : PathsRefine flags (insert o told) s := by
  intro key
  have hothers : o.path? ≠ some key := by
    rw [habout]
    exact nofun
  obtain ⟨hpointers, hdigests, hdecisions⟩ := insert_elsewhere told hothers
  exact (refines key).congr rfl rfl (fun _ _ => .rfl) (fun _ => hpointers) hdigests hdecisions

theorem PathsRefine.of_same (hhosted : t.hosted = s.hosted)
    (hconflicts : t.conflicts = s.conflicts) (hresolutions : t.resolutions = s.resolutions) :
    PathsRefine flags told t := by
  intro key
  refine (refines key).congr (by rw [hhosted]) (storedResolution_congr hresolutions _ _) ?_
    (fun _ => rfl) rfl rfl
  intro c _
  rw [hconflicts]

theorem PathsRefine.publish {h : HLC} {sha : String}
    (hown : PathRefines flags (insert (.publish key h sha) told) t key)
    (hrows : ∀ other, other ≠ key → t.hosted.find other = s.hosted.find other)
    (hconflicts : t.conflicts = s.conflicts) (hresolutions : t.resolutions = s.resolutions) :
    PathsRefine flags (insert (.publish key h sha) told) t := by
  refine refines.atPath rfl hown hrows ?_ ?_
  · intro other _
    exact storedResolution_congr hresolutions _ _
  · intro c _
    rw [hconflicts]

end

theorem PathsRefine.empty : PathsRefine flags ∅ {} := by
  intro key
  have hdigests : digests ∅ key = ∅ := by
    ext sha
    simp [digests]
  have hcalm : ¬ Contested flags ∅ key := by
    rintro ⟨-, hmany⟩
    rw [hdigests] at hmany
    exact Set.not_nontrivial_empty hmany
  have hnone : ∀ sha, ¬ Recorded {} key.1 key.2 sha := by
    rintro sha ⟨c, hmem, -⟩
    exact List.not_mem_nil hmem
  exact
    { flag := fun _ hfind => absurd hfind.symm (Option.some_ne_none _)
      decided := rfl
      backed := fun _ hstored => absurd hstored.symm (Option.some_ne_none _)
      kept := fun _ hstored => absurd hstored.symm (Option.some_ne_none _)
      newest := fun _ => rfl
      lowest := fun _ _ => by rw [hdigests]; rfl
      named := fun sha => iff_of_false (hnone sha) fun hboth => hcalm hboth.1
      status := fun _ hmem => absurd hmem List.not_mem_nil }

end Frame

/-! ## Publishes -/

variable {key : PathKey}

section Publish

variable {flags : PathKey → Bool} {told : Set Observation} {s : SiteState} {e : JournalEntry}
  {p : ManifestPut} {existing : HostedRow}

theorem PathsRefine.inserted (refines : PathsRefine flags told s)
    (hflag : p.mutable = flags (p.feed, p.path))
    (habsent : hostedState s p.feed p.path = none) :
    PathsRefine flags (insert (.publish (p.feed, p.path) e.hlc p.sha256) told)
      (insertHosted p e s) := by
  have hrow : (insertHosted p e s).hosted.find (p.feed, p.path) = some (replicatedRow p e) := by
    unfold hostedState at habsent
    simp [insertHosted, habsent]
  have hcreated := (refines (p.feed, p.path)).create habsent hrow hflag rfl rfl
  exact refines.publish hcreated (fun other hne => Table.find_insertNew_of_ne _ _ hne) rfl rfl

theorem isNewerThanStored_iff {h : HLC} {sha feed path : String}
    (hexisting : hostedState s feed path = some existing) :
    isNewerThanStored s feed path h sha existing.sha256 = true ↔
      pointerOf existing < toLex (h, OrderDual.toDual sha) := by
  unfold hostedState at hexisting
  unfold isNewerThanStored pointerOf
  rw [hexisting, Prod.Lex.toLex_lt_toLex]
  simp only [Bool.or_eq_true, HLC.before_iff, Bool.and_eq_true, decide_eq_true_eq,
    OrderDual.toDual_lt_toDual]

variable (refines : PathsRefine flags told s)

include refines

theorem PathsRefine.repeated {h : HLC} {sha : String} (himmutable : flags key = false)
    (hknown : sha ∈ digests told key) : PathsRefine flags (insert (.publish key h sha) told) s := by
  refine refines.publish ?_ (fun _ _ => rfl) rfl rfl
  refine (refines key).congr rfl rfl (fun _ _ => Iff.rfl) ?_ ?_ decisions_insert_publish
  · intro hmutable
    rw [himmutable] at hmutable
    cases hmutable
  · rw [digests_insert_publish]
    exact Set.insert_eq_of_mem hknown

variable (hflag : p.mutable = flags (p.feed, p.path))

include hflag

theorem PathsRefine.newer (hmutable : p.mutable = true)
    (hexisting : hostedState s p.feed p.path = some existing)
    (hnewer : isNewerThanStored s p.feed p.path e.hlc p.sha256 existing.sha256 = true) :
    PathsRefine flags (insert (.publish (p.feed, p.path) e.hlc p.sha256) told)
      (updateHosted p e s) := by
  have hheld := (refines (p.feed, p.path)).newest (hflag.symm.trans hmutable)
  rw [show s.hosted.find (p.feed, p.path) = some existing from hexisting] at hheld
  refine refines.publish ?_ (fun other hne => Table.find_modify_of_ne _ _ hne) rfl rfl
  refine (refines (p.feed, p.path)).repoint (hflag.symm.trans hmutable)
    (updateHosted_find_self hexisting e) hflag ?_ rfl rfl
  exact Holds.write_later hheld ((isNewerThanStored_iff hexisting).mp hnewer)

theorem PathsRefine.older (hmutable : p.mutable = true)
    (hexisting : hostedState s p.feed p.path = some existing)
    (holder : isNewerThanStored s p.feed p.path e.hlc p.sha256 existing.sha256 = false) :
    PathsRefine flags (insert (.publish (p.feed, p.path) e.hlc p.sha256) told) s := by
  have hpath := refines (p.feed, p.path)
  refine refines.publish ?_ (fun _ _ => rfl) rfl rfl
  refine hpath.repoint (hflag.symm.trans hmutable) hexisting (hpath.flag _ hexisting) ?_ rfl rfl
  have hheld := hpath.newest (hflag.symm.trans hmutable)
  rw [show s.hosted.find (p.feed, p.path) = some existing from hexisting] at hheld
  refine Holds.write_earlier hheld (not_lt.mp ?_)
  intro hlater
  rw [(isNewerThanStored_iff hexisting).mpr hlater] at holder
  cases holder

theorem PathsRefine.conflicted (himmutable : flags (p.feed, p.path) = false)
    (hundecided : storedResolution s p.feed p.path = none)
    (hexisting : hostedState s p.feed p.path = some existing)
    (hdiffers : existing.sha256 ≠ p.sha256) :
    PathsRefine flags (insert (.publish (p.feed, p.path) e.hlc p.sha256) told)
      (mergeConflict e p existing s).state := by
  have hpath := refines (p.feed, p.path)
  obtain ⟨hosted, quarantine, row, c, hstate, hrow, hserved, hmutable, hrows, honpath, -, hopen,
    hnames⟩ := mergeConflict_spec e hexisting hdiffers
  rw [hstate]
  have hrowFlag : row.mutable = flags (p.feed, p.path) := by
    rcases hmutable with heq | heq
    · exact heq.trans (hpath.flag existing hexisting)
    · exact heq.trans hflag
  refine refines.atPath rfl ?_ hrows ?_ ?_
  · exact hpath.conflict himmutable hundecided hexisting hdiffers hrow hrowFlag hserved rfl rfl
      honpath hnames hopen
  · intro other _
    exact storedResolution_congr rfl _ _
  · intro other helsewhere
    refine List.mem_append.trans (or_iff_left ?_)
    intro hnew
    rw [List.mem_singleton.mp hnew, honpath] at helsewhere
    cases helsewhere

end Publish

/-! ## Decisions -/

section Decisions

variable {flags : PathKey → Bool} {told : Set Observation} {s : SiteState} {e : JournalEntry}
  {p : ManifestPut}

theorem decidedBefore_iff {left right : Resolution} :
    decidedBefore left.hlc left.keepSha right.hlc right.keepSha = true ↔
      decisionOf left < decisionOf right := by
  unfold decidedBefore decisionOf
  rw [Prod.Lex.toLex_lt_toLex]
  simp

theorem PathRefines.record (hpath : PathRefines flags told s key) {r : Resolution}
    (coord operator site : String) (hkeep : r.keepSha ∈ digests told key) : ∃ winning,
      storedResolution (recordResolution key.1 key.2 coord r operator site s) key.1 key.2 =
        some winning ∧
      Holds (decisions (insert (.decision key r.hlc r.keepSha) told) key)
        (some (decisionOf winning)) ∧
      winning.keepSha ∈ digests told key := by
  have hdecided := hpath.decided
  rw [decisions_insert_decision]
  rcases storedResolution_recordResolution_cases key.1 key.2 coord operator site r s with
    ⟨hnew, hlater⟩ | ⟨stored, hstored, hkept, hsame⟩
  · refine ⟨r, hnew, ?_, hkeep⟩
    cases hstored : storedResolution s key.1 key.2 with
    | none =>
      rw [hstored] at hdecided
      exact Holds.write_new hdecided _
    | some stored =>
      rw [hstored] at hdecided
      exact Holds.write_later hdecided (decidedBefore_iff.mp (hlater stored hstored))
  · rw [hstored] at hdecided
    refine ⟨stored, hsame, Holds.write_earlier hdecided ?_, (hpath.backed stored hstored).2⟩
    refine not_lt.mp fun hlt => Bool.eq_false_iff.mp hkept ?_
    exact decidedBefore_iff.mpr hlt

variable (refines : PathsRefine flags told s)

include refines

/-- Applying a decision closes its path, serves the kept digest and keeps every other name. -/
theorem PathsRefine.applyResolution {pg : Postgres} {r : Resolution} {coord site : String}
    {filed : SiteState} (habout : o.path? = some key) (himmutable : flags key = false)
    (hstored : storedResolution filed key.1 key.2 = some r)
    (hdecided : Holds (decisions (insert o told) key) (some (decisionOf r)))
    (hkeep : r.keepSha ∈ digests (insert o told) key) (hhosted : filed.hosted = s.hosted)
    (hothers : ∀ other, other ≠ key →
      storedResolution filed other.1 other.2 = storedResolution s other.1 other.2)
    (hnamed : ∀ sha, Recorded filed key.1 key.2 sha ↔
      Contested flags (insert o told) key ∧ sha ∈ digests (insert o told) key)
    (helsewhere : ∀ c, c.onPath key.1 key.2 = false → (c ∈ filed.conflicts ↔ c ∈ s.conflicts)) :
    PathsRefine flags (insert o told) (applyResolutionTx pg key.1 key.2 coord r site filed) := by
  have hconflicts := applyResolutionTx_conflicts key.1 key.2 filed pg coord r site
  have hresolutions := applyResolutionTx_resolutions key.1 key.2 filed pg coord r site
  have hrows := applyResolutionTx_hosted key.1 key.2 filed pg coord r site
  obtain ⟨row, hrow, hserved, hflag⟩ : ∃ row,
      (applyResolutionTx pg key.1 key.2 coord r site filed).hosted.find key = some row ∧
      row.sha256 = r.keepSha ∧ row.mutable = flags key := by
    rw [hrows]
    simp only [writeResolved, Table.find_upsert_self, hhosted]
    cases hfind : s.hosted.find key with
    | none => exact ⟨_, rfl, rfl, himmutable.symm⟩
    | some existing => exact ⟨_, rfl, rfl, (refines key).flag existing hfind⟩
  refine refines.atPath habout ?_ ?_ ?_ ?_
  · refine PathRefines.of_decision himmutable ?_ hdecided hkeep hrow hflag hserved ?_ ?_
    · rw [storedResolution_congr hresolutions]
      exact hstored
    · intro sha
      rw [recorded_congr hconflicts, closeConflicts_recorded]
      exact hnamed sha
    · rintro ⟨c, hmem, hpath, hopen⟩
      rw [hconflicts] at hmem
      rw [closeConflicts_closed hmem hpath] at hopen
      cases hopen
  · intro other hne
    rw [hrows, writeResolved_find_of_ne _ _ _ _ hne, hhosted]
  · intro other hne
    rw [storedResolution_congr hresolutions]
    exact hothers other hne
  · intro c hpath
    rw [hconflicts, closeConflicts_elsewhere hpath]
    exact helsewhere c hpath

theorem PathsRefine.resolved {pg : Postgres} {decision : Resolution}
    (hstored : storedResolution s p.feed p.path = some decision) :
    PathsRefine flags (insert (.publish (p.feed, p.path) e.hlc p.sha256) told)
      (mergeResolved pg e p decision s).state := by
  have hpath := refines (p.feed, p.path)
  obtain ⟨himmutable, hkeep⟩ := hpath.backed decision hstored
  obtain ⟨hhosted, hresolutions, -⟩ := fileRejected_spec e p decision s
  have hdecided := hpath.decided
  rw [show storedResolution s (p.feed, p.path).1 (p.feed, p.path).2 = some decision from hstored]
    at hdecided
  refine refines.applyResolution rfl himmutable ?_ ?_ ?_ hhosted ?_ ?_ ?_
  · exact (storedResolution_congr hresolutions _ _).trans hstored
  · rw [decisions_insert_publish]
    exact hdecided
  · rw [digests_insert_publish]
    exact Set.mem_insert_of_mem _ hkeep
  · intro other _
    exact storedResolution_congr hresolutions _ _
  · intro sha
    unfold Contested
    rw [digests_insert_publish]
    rcases fileRejected_conflicts e p decision s with ⟨hsame, hknown⟩ |
      ⟨filed, hfiled, honpath, -, hrejected, hnames⟩
    · -- A digest that is known already is not filed again.
      have hmem : p.sha256 ∈ digests told (p.feed, p.path) := by
        rcases hknown with heq | hrecorded
        · rw [heq]
          exact hkeep
        · exact ((hpath.named _).mp hrecorded).2
      rw [recorded_congr hsame, Set.insert_eq_of_mem hmem]
      exact hpath.named sha
    · have hcontested : flags (p.feed, p.path) = false ∧
          (insert p.sha256 (digests told (p.feed, p.path))).Nontrivial :=
        ⟨himmutable, p.sha256, .inl rfl, decision.keepSha, .inr hkeep, hrejected⟩
      rw [and_iff_right hcontested]
      exact hpath.recorded_filed himmutable hkeep hfiled honpath hnames sha
  · intro c helsewhere
    rcases fileRejected_conflicts e p decision s with ⟨hsame, -⟩ | ⟨filed, hfiled, honpath, -⟩
    · rw [hsame]
    · rw [hfiled, List.mem_append]
      refine or_iff_left ?_
      intro hnew
      rw [List.mem_singleton.mp hnew, honpath] at helsewhere
      cases helsewhere

theorem PathsRefine.decided (pg : Postgres) (key : PathKey) (r : Resolution)
    (coord operator site : String) (hrecorded : Recorded s key.1 key.2 r.keepSha) : ∃ winning,
      storedResolution (recordResolution key.1 key.2 coord r operator site s) key.1 key.2 =
        some winning ∧
      PathsRefine flags (insert (.decision key r.hlc r.keepSha) told)
        (applyResolutionTx pg key.1 key.2 coord winning site
          (recordResolution key.1 key.2 coord r operator site s)) := by
  have hpath := refines key
  obtain ⟨hcontested, hkeep⟩ := (hpath.named r.keepSha).mp hrecorded
  obtain ⟨winning, hwinning, hheld, hsha⟩ := hpath.record coord operator site hkeep
  refine ⟨winning, hwinning, ?_⟩
  refine refines.applyResolution rfl hcontested.1 hwinning hheld ?_ rfl ?_ ?_ ?_
  · rw [digests_insert_decision]
    exact hsha
  · intro other hne
    exact storedResolution_recordResolution_of_ne _ _ _ _ _ hne
  · intro sha
    unfold Contested
    rw [digests_insert_decision]
    exact hpath.named sha
  · intro c _
    exact Iff.rfl

end Decisions

/-! ## One merge -/

theorem PathsRefine.merge {flags : PathKey → Bool} {s t : SiteState} {a : Applier} {peer : String}
    (refines : PathsRefine flags told s) (hflagged : Flagged flags e)
    (hmerged : Merged a peer e s t) : PathsRefine flags (learn told e) t := by
  -- Outside a mutable path the flags of the row and of the publish are both false.
  have himmutable : ∀ {p : ManifestPut} {existing : HostedRow},
      e.event = .manifestPut (.ok p) → hostedState s p.feed p.path = some existing →
      ¬ (p.mutable = true ∧ existing.mutable = true) → flags (p.feed, p.path) = false := by
    intro p existing body hexisting hnot
    refine Bool.eq_false_iff.mpr fun hmutable => hnot ⟨(hflagged p body).trans hmutable, ?_⟩
    exact ((refines (p.feed, p.path)).flag existing hexisting).trans hmutable
  cases hmerged with
  | resolved body complete available stored =>
    rw [learn_some (observe_put body)]
    exact refines.resolved stored
  | inserted body complete available undecided absent =>
    rw [learn_some (observe_put body)]
    exact refines.inserted (hflagged _ body) absent
  | newer body complete available undecided present mutables newer =>
    rw [learn_some (observe_put body)]
    exact refines.newer (hflagged _ body) mutables.1 present newer
  | older body complete available undecided present mutables older =>
    rw [learn_some (observe_put body)]
    exact refines.older (hflagged _ body) mutables.1 present older
  | repeated body complete available undecided present immutables same =>
    rw [learn_some (observe_put body)]
    have hflag := himmutable body present immutables
    refine refines.repeated hflag ?_
    rw [← same]
    exact ((refines _).isLeast hflag undecided present).1
  | conflicted body complete available undecided present immutables differs =>
    rw [learn_some (observe_put body)]
    exact refines.conflicted (hflagged _ body) (himmutable body present immutables) undecided
      present differs
  | noticed body =>
    rw [learn_none (by unfold observe; rw [body])]
    exact refines
  | fetched body =>
    rw [learn_none (by unfold observe; rw [body])]
    exact refines.of_same rfl rfl rfl
  | revoked body digest ran =>
    rw [learn_some (by unfold observe; rw [body])]
    obtain ⟨tokens, rfl⟩ := revokeToken_tokens ran
    exact (refines.offPath rfl).of_same rfl rfl rfl
  | blocked body | released body =>
    rw [learn_some (by unfold observe; rw [body])]
    exact (refines.offPath rfl).of_same rfl rfl rfl
  | @decided p side body wellFormed recorded =>
    have hside : side.sha256 = p.keepSha := conflictSide_sha recorded
    rw [learn_some (o := .decision (p.feed, p.path) e.hlc side.sha256)
      (by unfold observe; rw [body, hside])]
    have hnamed : Recorded s p.feed p.path side.sha256 := by
      rw [hside]
      exact conflictSide_isSome.mp (by rw [recorded]; rfl)
    obtain ⟨winning, hwinning, hrefines⟩ := refines.decided a.pg (p.feed, p.path)
      (SideMeta.decision side e.hlc) p.coord p.operator e.originSite hnamed
    unfold mergeDecision
    simp only [hwinning, Option.getD_some]
    exact hrefines

/-! ## Agreement -/

section Agreement

variable {flags : PathKey → Bool} {told more : Set Observation} {s t : SiteState} {key : PathKey}

section

variable (hs : PathRefines flags told s key)

include hs

variable (ht : PathRefines flags more t key)

include ht

theorem PathRefines.decision_eq (hdecisions : decisions told key = decisions more key) :
    (storedResolution s key.1 key.2).map Resolution.keepSha =
      (storedResolution t key.1 key.2).map Resolution.keepSha := by
  have hheld := hs.decided
  rw [hdecisions] at hheld
  exact hheld.map_eq (fun x => (ofLex x).2) ht.decided

theorem PathRefines.pointer_eq (hmutable : flags key = true)
    (hpointers : pointers told key = pointers more key) :
    (s.hosted.find key).map HostedRow.sha256 = (t.hosted.find key).map HostedRow.sha256 := by
  have hheld := hs.newest hmutable
  rw [hpointers] at hheld
  exact hheld.map_eq (fun x => OrderDual.ofDual (ofLex x).2) (ht.newest hmutable)

/-- Two sites that know the same digests and keep the same decision serve the same digest. -/
theorem PathRefines.row_eq
    (hdigests : storedResolution s key.1 key.2 = none → digests told key = digests more key)
    (hdecision : (storedResolution s key.1 key.2).map Resolution.keepSha =
      (storedResolution t key.1 key.2).map Resolution.keepSha) (hpointer : flags key = true →
      (s.hosted.find key).map HostedRow.sha256 = (t.hosted.find key).map HostedRow.sha256) :
    (s.hosted.find key).map HostedRow.sha256 = (t.hosted.find key).map HostedRow.sha256 := by
  cases hstored : storedResolution s key.1 key.2 with
  | some r =>
    rw [hstored, Option.map_some] at hdecision
    obtain ⟨other, hother, hkeep⟩ := Option.map_eq_some_iff.mp hdecision.symm
    obtain ⟨row, hrow, hsha⟩ := hs.kept r hstored
    obtain ⟨row', hrow', hsha'⟩ := ht.kept other hother
    rw [hrow, hrow', Option.map_some, Option.map_some, hsha, hsha', hkeep]
  | none =>
    rw [hstored, Option.map_none] at hdecision
    have hundecided : storedResolution t key.1 key.2 = none :=
      Option.map_eq_none_iff.mp hdecision.symm
    cases hmutable : flags key with
    | true => exact hpointer hmutable
    | false =>
      have hleft := hs.lowest hmutable hstored
      rw [hdigests hstored] at hleft
      exact hleft.map_eq OrderDual.ofDual (ht.lowest hmutable hundecided)

end

def OpenFor (s : SiteState) (feed path sha : String) : Prop :=
  ∃ c ∈ s.conflicts, c.onPath feed path = true ∧ c.unresolved = true ∧ c.names sha = true

theorem PathRefines.openFor_iff (refines : PathRefines flags told s key) (sha : String) :
    OpenFor s key.1 key.2 sha ↔ storedResolution s key.1 key.2 = none ∧
      Contested flags told key ∧ sha ∈ digests told key := by
  constructor
  · rintro ⟨c, hmem, hpath, hopen, hname⟩
    exact ⟨(refines.status c hmem hpath).mp hopen, (refines.named sha).mp ⟨c, hmem, hpath, hname⟩⟩
  · rintro ⟨hundecided, hnamed⟩
    obtain ⟨c, hmem, hpath, hname⟩ := (refines.named sha).mpr hnamed
    exact ⟨c, hmem, hpath, (refines.status c hmem hpath).mpr hundecided, hname⟩

/-- Two sites that know the same digests and keep the same decision have the same open conflicts. -/
theorem PathRefines.openFor_congr (hs : PathRefines flags told s key)
    (ht : PathRefines flags more t key)
    (hdigests : storedResolution s key.1 key.2 = none → digests told key = digests more key)
    (hdecision : (storedResolution s key.1 key.2).map Resolution.keepSha =
      (storedResolution t key.1 key.2).map Resolution.keepSha) (sha : String) :
    OpenFor s key.1 key.2 sha ↔ OpenFor t key.1 key.2 sha := by
  have hundecided : storedResolution s key.1 key.2 = none ↔
      storedResolution t key.1 key.2 = none := by
    rw [← Option.map_eq_none_iff (f := Resolution.keepSha), hdecision, Option.map_eq_none_iff]
  rw [hs.openFor_iff, ht.openFor_iff, ← hundecided]
  refine and_congr_right fun hnone => ?_
  unfold Contested
  rw [hdigests hnone]

theorem openOn_iff_openFor {feed path : String} :
    OpenOn s feed path ↔ ∃ sha, OpenFor s feed path sha := by
  constructor
  · rintro ⟨c, hmem, hpath, hopen⟩
    exact ⟨c.winnerSha, c, hmem, hpath, hopen, ConflictRow.names_iff.mpr (.inl rfl)⟩
  · rintro ⟨sha, c, hmem, hpath, hopen, -⟩
    exact ⟨c, hmem, hpath, hopen⟩

end Agreement

end FondacoFormal.Convergence
