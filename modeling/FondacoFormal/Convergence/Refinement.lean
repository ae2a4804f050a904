import FondacoFormal.Convergence.Paths

/-!
# What a site's tables show

The paths together with the quarantine registers, the revocations and the blocks
that conflicts derive: a merged event adds its observation to all of them, and
tables that were told the same agree.
-/

namespace FondacoFormal.Convergence

open Library Library.Register State Repl Safety

/-- What a path is published as: its coordinate, and whether it may be overwritten. -/
structure Catalog where
  coordinate : PathKey → String
  mutable : PathKey → Bool

def Catalogued (cat : Catalog) (e : JournalEntry) : Prop :=
  match e.event with
  | .manifestPut (.ok p) => p.coord = cat.coordinate (p.feed, p.path) ∧
      p.mutable = cat.mutable (p.feed, p.path)
  | .conflictResolve (.ok p) => p.coord = cat.coordinate (p.feed, p.path)
  | .quarantineSet (.ok p) => p.reason ≠ crossSiteConflict
  | .quarantineRelease (.ok p) => p.reason ≠ crossSiteConflict
  | _ => True

def Coordinated (cat : Catalog) (s : SiteState) : Prop :=
  ∀ c ∈ s.conflicts, c.coordinate = cat.coordinate (c.feed, c.path)

/-- Every register holds the newest verdict; derived blocks are no registers. -/
def RegistersRefine (told : Set Observation) (s : SiteState) : Prop :=
  ∀ register : QuarantineKey, register.2.2 ≠ crossSiteConflict →
    Holds (verdicts told register) ((s.quarantine.find register).map verdictOf)

def RevocationsRefine (told : Set Observation) (s : SiteState) : Prop :=
  ∀ hash, s.revoked hash = true ↔ .revocation hash ∈ told

structure SiteRefines (cat : Catalog) (told : Set Observation) (s : SiteState) : Prop where
  paths : PathsRefine cat.mutable told s
  registers : RegistersRefine told s
  revoked : RevocationsRefine told s
  coords : Coordinated cat s
  blocks : ConflictBlocks s

theorem Catalogued.put {cat : Catalog} {e : JournalEntry} {p : ManifestPut}
    (hcat : Catalogued cat e) (body : e.event = .manifestPut (.ok p)) :
    p.coord = cat.coordinate (p.feed, p.path) ∧ p.mutable = cat.mutable (p.feed, p.path) := by
  unfold Catalogued at hcat
  rw [body] at hcat
  exact hcat

/-! ## Registers -/

variable {peer : String} {a : Applier} {active : Bool}

section Registers

variable {told : Set Observation} {s t : SiteState} {e : JournalEntry} {p : ManifestPut}

variable {register : QuarantineKey} {h : HLC}

theorem verdicts_insert_of_ne {other : QuarantineKey} (hne : other ≠ register) :
    verdicts (insert (.verdict register h active) told) other = verdicts told other := by
  ext x
  refine or_iff_right ?_
  intro heq
  exact hne (Observation.verdict.inj heq).1

theorem verdicts_learn (hnone : ∀ h active, observe e ≠ some (.verdict register h active)) :
    verdicts (learn told e) register = verdicts told register := by
  ext x
  exact or_iff_left (hnone _ _)

variable {feed : String}

section

variable (hreason : register.2.2 ≠ crossSiteConflict)

include hreason

theorem sync_find_other {coord : String} (s : SiteState) :
    (syncConflictQuarantineTx feed coord s).quarantine.find register =
      s.quarantine.find register := by
  refine sync_find_of_ne s ?_
  rintro rfl
  exact hreason rfl

theorem fileRejected_find_other {decision : Resolution} :
    (fileRejected e p decision s).quarantine.find register = s.quarantine.find register := by
  unfold fileRejected
  split
  · rfl
  · rw [sync_find_other hreason]
    obtain ⟨conflicts, heq, -⟩ := recordResolvedConflictTx_eq p (Resolution.side decision)
      (ManifestPut.side p) e.originSite s
    rw [heq]

theorem applyResolutionTx_find_other {pg : Postgres} {path coord site : String} {r : Resolution} :
    (applyResolutionTx pg feed path coord r site s).quarantine.find register =
      s.quarantine.find register := by
  unfold applyResolutionTx
  exact sync_find_other hreason _

end

variable (refines : RegistersRefine told s)

include refines

theorem RegistersRefine.keep
    (hnone : ∀ register h active, observe e ≠ some (.verdict register h active))
    (hregisters : ∀ register : QuarantineKey, register.2.2 ≠ crossSiteConflict →
      t.quarantine.find register = s.quarantine.find register) :
    RegistersRefine (learn told e) t := by
  intro register hreason
  rw [verdicts_learn (hnone register), hregisters register hreason]
  exact refines register hreason

theorem RegistersRefine.verdict {fresh : QuarantineRow} {change : QuarantineRow → QuarantineRow}
    (hfresh : verdictOf fresh = toLex (h, active))
    (hlater : ∀ row, verdictOf row < toLex (h, active) → verdictOf (change row) = toLex (h, active))
    (hearlier : ∀ row, toLex (h, active) ≤ verdictOf row → verdictOf (change row) = verdictOf row) :
    RegistersRefine (insert (.verdict register h active) told)
      { s with quarantine := s.quarantine.upsert register fresh change } := by
  intro other hreason
  by_cases heq : other = register
  · subst heq
    have hheld := refines other hreason
    simp only [Table.find_upsert_self, verdicts_insert_verdict, Option.map_some]
    cases hfind : s.quarantine.find other with
    | none =>
      rw [hfind] at hheld
      simp only [Option.map_none, Option.getD_none, hfresh]
      exact Holds.write_new hheld _
    | some row =>
      rw [hfind] at hheld
      simp only [Option.map_some, Option.getD_some]
      by_cases hlt : verdictOf row < toLex (h, active)
      · rw [hlater row hlt]
        exact Holds.write_later hheld hlt
      · rw [hearlier row (not_lt.mp hlt)]
        exact Holds.write_earlier hheld (not_lt.mp hlt)
  · rw [verdicts_insert_of_ne heq]
    simp only [Table.find_upsert_of_ne _ _ _ heq]
    exact refines other hreason

theorem RegistersRefine.blocked {coordinate reason detail : String} :
    RegistersRefine (insert (.verdict (feed, coordinate, reason) h true) told)
      (quarantineTx feed coordinate reason detail h s) := by
  refine refines.verdict rfl ?_ ?_
  · intro row hlt
    have hle : row.hlc ≤ h := by
      rcases Prod.Lex.toLex_lt_toLex.mp hlt with hstamp | ⟨hstamp, -⟩
      · exact hstamp.le
      · exact hstamp.le
    rw [if_pos hle]
    rfl
  · intro row hle
    split
    · rename_i hstamp
      -- Equal stamps break towards blocked, so an equal or later verdict is this one.
      rcases Prod.Lex.toLex_le_toLex.mp hle with hlt | ⟨heq, hactive⟩
      · exact absurd hlt (not_lt.mpr hstamp)
      · refine congrArg toLex (Prod.ext heq ?_)
        exact (Bool.eq_true_of_true_le hactive).symm
    · rfl

theorem RegistersRefine.released {coordinate reason : String} :
    RegistersRefine (insert (.verdict (feed, coordinate, reason) h false) told)
      (releaseQuarantineTx feed coordinate reason h s) := by
  refine refines.verdict rfl ?_ ?_
  · intro row hlt
    have hstamp : row.hlc < h := by
      rcases Prod.Lex.toLex_lt_toLex.mp hlt with hstamp | ⟨-, hactive⟩
      · exact hstamp
      · exact absurd hactive (not_lt_bot (a := row.active))
    rw [if_pos hstamp]
    rfl
  · intro row hle
    split
    · rename_i hstamp
      rcases Prod.Lex.toLex_le_toLex.mp hle with hlt | ⟨heq, -⟩
      · exact absurd hlt (not_lt.mpr hstamp.le)
      · exact absurd heq hstamp.ne'
    · rfl

theorem RegistersRefine.merge (hmerged : Merged a peer e s t) :
    RegistersRefine (learn told e) t := by
  have hkeep : ∀ {t : SiteState},
      (∀ register h active, observe e ≠ some (.verdict register h active)) →
      t.quarantine = s.quarantine → RegistersRefine (learn told e) t :=
    fun hnone hsame => refines.keep hnone fun register _ => by rw [hsame]
  cases hmerged with
  | resolved body complete available stored =>
    refine refines.keep (by unfold observe; rw [body]; exact nofun) fun register hreason => ?_
    exact (applyResolutionTx_find_other hreason).trans (fileRejected_find_other hreason)
  | conflicted body complete available undecided present immutables differs =>
    refine refines.keep (by unfold observe; rw [body]; exact nofun) fun register hreason => ?_
    have hwritten : ∀ (kept : Prop) [Decidable kept] (p : ManifestPut),
        (if kept then s else updateHosted p e s).quarantine = s.quarantine := by
      intro kept _ p
      split
      · rfl
      · rfl
    unfold mergeConflict
    dsimp only
    rw [sync_find_other hreason]
    exact congrArg (Table.find · register) (hwritten _ _)
  | inserted body | newer body | older body | repeated body | noticed body | fetched body =>
    exact hkeep (by unfold observe; rw [body]; exact nofun) rfl
  | revoked body digest ran =>
    obtain ⟨tokens, rfl⟩ := revokeToken_tokens ran
    exact hkeep (by unfold observe; rw [body]; exact nofun) rfl
  | blocked body blocking =>
    rw [learn_some (by unfold observe; rw [body])]
    exact refines.blocked
  | released body =>
    rw [learn_some (by unfold observe; rw [body])]
    exact refines.released
  | decided body wellFormed recorded =>
    refine refines.keep (by unfold observe; rw [body]; exact nofun) fun register hreason => ?_
    unfold mergeDecision
    exact applyResolutionTx_find_other hreason

end Registers

/-! ## Revocations -/

section Revocations

variable {told : Set Observation} {s t : SiteState} {e : JournalEntry}

theorem revokeToken_revoked {hash : String} (ran : revokeToken hash s = .ok t) (other : String) :
    t.revoked other = true ↔ other = hash ∨ s.revoked other = true := by
  have hput : ∀ row : TokenRow, row.revoked = true →
      (({ s with tokens := s.tokens.put hash row } : SiteState).revoked other = true ↔
        other = hash ∨ s.revoked other = true) := by
    intro row hrow
    unfold SiteState.revoked
    rw [Table.find_put]
    by_cases heq : other = hash
    · simp [heq, hrow]
    · simp [heq]
  unfold revokeToken at ran
  split at ran
  · cases ran
  · dsimp only at ran
    split at ran
    · cases ran
      exact hput _ rfl
    · split at ran
      · cases ran
      · cases ran
        exact hput _ rfl

theorem RevocationsRefine.keep (refines : RevocationsRefine told s)
    (hnone : ∀ hash, observe e ≠ some (.revocation hash)) (htokens : t.tokens = s.tokens) :
    RevocationsRefine (learn told e) t := by
  intro hash
  unfold SiteState.revoked
  rw [htokens]
  exact (refines hash).trans (or_iff_left (hnone hash)).symm

theorem RevocationsRefine.merge (refines : RevocationsRefine told s)
    (hmerged : Merged a peer e s t) : RevocationsRefine (learn told e) t := by
  cases hmerged with
  | revoked body digest ran =>
    rw [learn_some (by unfold observe; rw [body])]
    intro hash
    rw [revokeToken_revoked ran hash, refines hash]
    simp
  | resolved body complete available stored =>
    refine refines.keep (by unfold observe; rw [body]; exact nofun) ?_
    rw [mergeResolved, applyResolutionTx_tokens]
    exact (fileRejected_spec _ _ _ _).2.2.1
  | conflicted body complete available undecided present immutables differs =>
    obtain ⟨hosted, quarantine, row, c, hstate, -⟩ := mergeConflict_spec e present differs
    rw [hstate]
    exact refines.keep (by unfold observe; rw [body]; exact nofun) rfl
  | decided body wellFormed recorded =>
    refine refines.keep (by unfold observe; rw [body]; exact nofun) ?_
    rw [mergeDecision, applyResolutionTx_tokens]
    rfl
  | inserted body | newer body | older body | repeated body | noticed body | fetched body
  | blocked body | released body =>
    exact refines.keep (by unfold observe; rw [body]; exact nofun) rfl

end Revocations

/-! ## One merge -/

section Merge

variable {cat : Catalog} {told : Set Observation} {s t : SiteState} {e : JournalEntry}

section

variable (coords : Coordinated cat s)

include coords

theorem Coordinated.append {c : ConflictRow}
    (hcoord : c.coordinate = cat.coordinate (c.feed, c.path))
    (hconflicts : t.conflicts = s.conflicts ++ [c]) : Coordinated cat t := by
  intro other hmem
  rw [hconflicts] at hmem
  rcases List.mem_append.mp hmem with hold | hnew
  · exact coords other hold
  · rw [List.mem_singleton.mp hnew]
    exact hcoord

theorem Coordinated.applyResolution (pg : Postgres) (feed path coord : String) (r : Resolution)
    (site : String) : Coordinated cat (applyResolutionTx pg feed path coord r site s) := by
  intro c hmem
  rw [applyResolutionTx_conflicts] at hmem
  obtain ⟨old, hold, hfeed, hpath, -, hcoord⟩ := closeConflicts_origin hmem
  rw [hcoord, hfeed, hpath]
  exact coords old hold

theorem Coordinated.merge (hcat : Catalogued cat e) (hmerged : Merged a peer e s t) :
    Coordinated cat t := by
  have hnew : ∀ {p : ManifestPut} {c : ConflictRow}, e.event = .manifestPut (.ok p) →
      c.onPath p.feed p.path = true → c.coordinate = p.coord →
      c.coordinate = cat.coordinate (c.feed, c.path) := by
    intro p c body honpath hcoord
    obtain ⟨hfeed, hpath⟩ := ConflictRow.onPath_iff.mp honpath
    rw [hcoord, hfeed, hpath]
    exact (hcat.put body).1
  cases hmerged with
  | resolved body complete available stored =>
    refine Coordinated.applyResolution ?_ _ _ _ _ _ _
    rcases fileRejected_conflicts e _ _ s with ⟨hsame, -⟩ | ⟨c, hfiled, honpath, hcoord, -⟩
    · unfold Coordinated
      rw [hsame]
      exact coords
    · exact coords.append (hnew body honpath hcoord) hfiled
  | conflicted body complete available undecided present immutables differs =>
    obtain ⟨hosted, quarantine, row, c, hstate, -, -, -, -, honpath, hcoord, -⟩ :=
      mergeConflict_spec e present differs
    rw [hstate]
    exact coords.append (hnew body honpath hcoord) rfl
  | decided body wellFormed recorded =>
    refine Coordinated.applyResolution ?_ _ _ _ _ _ _
    exact coords
  | revoked body digest ran =>
    obtain ⟨tokens, rfl⟩ := revokeToken_tokens ran
    exact coords
  | inserted | newer | older | repeated | noticed | fetched | blocked | released => exact coords

theorem Coordinated.keepsBlocks (hcat : Catalogued cat e) : EventKeepsBlocks s e.event := by
  have hown : ∀ feed path coord, coord = cat.coordinate (feed, path) →
      ClosesOwn s feed path coord := by
    intro feed path coord hcoord c hmem hpath _
    obtain ⟨hfeed, hpath⟩ := ConflictRow.onPath_iff.mp hpath
    rw [hcoord, ← hfeed, ← hpath]
    exact coords c hmem
  unfold Catalogued at hcat
  unfold EventKeepsBlocks
  cases hevent : e.event with
  | manifestPut body =>
    cases body with
    | error message => trivial
    | ok p =>
      rw [hevent] at hcat
      exact fun _ => hown _ _ _ hcat.1
  | conflictResolve body =>
    cases body with
    | error message => trivial
    | ok p =>
      rw [hevent] at hcat
      exact hown _ _ _ hcat
  | quarantineSet body | quarantineRelease body =>
    cases body with
    | error message => trivial
    | ok p =>
      rw [hevent] at hcat
      exact hcat
  | blobAvailable | tokenRevoke | unknown => trivial

end

theorem SiteRefines.of_same (refines : SiteRefines cat told s) (same : SameTables s t) :
    SiteRefines cat told t := by
  refine
    { paths := refines.paths.of_same same.hosted same.conflicts same.resolutions
      registers := ?_
      revoked := ?_
      coords := ?_
      blocks := refines.blocks.of_same same.quarantine same.conflicts }
  · unfold RegistersRefine
    rw [same.quarantine]
    exact refines.registers
  · unfold RevocationsRefine SiteState.revoked
    rw [same.tokens]
    exact refines.revoked
  · unfold Coordinated
    rw [same.conflicts]
    exact refines.coords

theorem SiteRefines.empty : SiteRefines cat ∅ {} where
  paths := .empty
  registers := fun _ _ => rfl
  revoked := fun _ => iff_of_false nofun (Set.notMem_empty _)
  coords := fun _ hmem => nomatch hmem
  blocks := .empty

theorem SiteRefines.merge (refines : SiteRefines cat told s) (hcat : Catalogued cat e)
    (hmerged : Merged a peer e s t) :
    SiteRefines cat (learn told e) t where
  paths := refines.paths.merge (fun _ body => (hcat.put body).2) hmerged
  registers := refines.registers.merge hmerged
  revoked := refines.revoked.merge hmerged
  coords := refines.coords.merge hcat hmerged
  blocks := refines.blocks.merge (refines.coords.keepsBlocks hcat) hmerged

end Merge

/-! ## Agreement -/

structure AgreeOn (counts : SiteState → String → String → String → Prop) (s t : SiteState) :
    Prop where
  rows : ∀ key, (s.hosted.find key).map HostedRow.sha256 = (t.hosted.find key).map HostedRow.sha256
  quarantines : ∀ register, s.quarantined register = t.quarantined register
  decisions : ∀ key,
    (s.resolutions.find key).map ResolutionRow.keepSha =
      (t.resolutions.find key).map ResolutionRow.keepSha
  conflicts : ∀ feed path sha, counts s feed path sha ↔ counts t feed path sha
  revocations : ∀ hash, s.revoked hash = t.revoked hash

abbrev Agree (s t : SiteState) : Prop :=
  AgreeOn Recorded s t

/-- As `Agree`, but of the recorded conflicts only the open ones count. -/
abbrev AgreeOpen (s t : SiteState) : Prop :=
  AgreeOn OpenFor s t

/--
What two sites were told makes no difference to what they show: it differs at most
in digests that a decision has rejected and in registers that were never blocked.
-/
structure Alike (flags : PathKey → Bool) (left right : Set Observation) : Prop where
  decided : ∀ key, decisions left key = decisions right key
  newest : ∀ key, flags key = true → pointers left key = pointers right key
  known : ∀ key, decisions left key = ∅ → digests left key = digests right key
  judged : ∀ register, verdicts left register = verdicts right register ∨
    ∀ x ∈ verdicts left register ∪ verdicts right register, (ofLex x).2 = false
  revoked : ∀ hash, .revocation hash ∈ left ↔ .revocation hash ∈ right

theorem Alike.refl (flags : PathKey → Bool) (told : Set Observation) : Alike flags told told :=
  ⟨fun _ => rfl, fun _ _ => rfl, fun _ _ => rfl, fun _ => .inl rfl, fun _ => Iff.rfl⟩

variable {register : QuarantineKey}

section Agreement

variable {cat : Catalog} {told more : Set Observation} {s t : SiteState}

theorem SiteRefines.block_iff (refines : SiteRefines cat told s) (feed coord : String) :
    s.quarantined (feed, coord, crossSiteConflict) = true ↔
      ∃ path, cat.coordinate (feed, path) = coord ∧ ∃ sha, OpenFor s feed path sha := by
  refine (refines.blocks feed coord).trans ?_
  simp only [← openOn_iff_openFor]
  constructor
  · rintro ⟨c, hmem, hblocks⟩
    obtain ⟨hfeed, hcoord, hopen⟩ := ConflictRow.blocks_iff.mp hblocks
    have hpath : c.onPath feed c.path = true := ConflictRow.onPath_iff.mpr ⟨hfeed, rfl⟩
    refine ⟨c.path, ?_, c, hmem, hpath, hopen⟩
    rw [← hfeed, ← refines.coords c hmem]
    exact hcoord
  · rintro ⟨path, hcoord, c, hmem, hpath, hopen⟩
    obtain ⟨hfeed, hpath⟩ := ConflictRow.onPath_iff.mp hpath
    refine ⟨c, hmem, ConflictRow.blocks_iff.mpr ⟨hfeed, ?_, hopen⟩⟩
    rw [refines.coords c hmem, hfeed, hpath]
    exact hcoord

theorem RegistersRefine.unblocked (refines : RegistersRefine told s)
    (hreason : register.2.2 ≠ crossSiteConflict)
    (hinactive : ∀ x ∈ verdicts told register, (ofLex x).2 = false) :
    s.quarantined register = false := by
  have hheld := refines register hreason
  unfold SiteState.quarantined
  cases hfind : s.quarantine.find register with
  | none => rfl
  | some row =>
    rw [hfind] at hheld
    exact hinactive (verdictOf row) hheld.mem

variable (hs : SiteRefines cat told s)

include hs

theorem SiteRefines.quarantined_eq (ht : SiteRefines cat more t)
    (hconflicts : ∀ feed path sha, OpenFor s feed path sha ↔ OpenFor t feed path sha)
    (hjudged : verdicts told register = verdicts more register ∨
      ∀ x ∈ verdicts told register ∪ verdicts more register, (ofLex x).2 = false) :
    s.quarantined register = t.quarantined register := by
  by_cases hreason : register.2.2 = crossSiteConflict
  · obtain ⟨feed, coord, reason⟩ := register
    subst hreason
    rw [Bool.eq_iff_iff, hs.block_iff, ht.block_iff]
    refine exists_congr fun path => and_congr_right fun _ => ?_
    exact exists_congr fun sha => hconflicts feed path sha
  · rcases hjudged with hsame | hinactive
    · have hheld := hs.registers register hreason
      rw [hsame] at hheld
      have hactive := hheld.map_eq (fun x => (ofLex x).2) (ht.registers register hreason)
      unfold SiteState.quarantined
      exact congrArg (Option.getD · false) hactive
    · rw [hs.registers.unblocked hreason fun x hmem => hinactive x (.inl hmem),
        ht.registers.unblocked hreason fun x hmem => hinactive x (.inr hmem)]

theorem SiteRefines.agreeOpen (ht : SiteRefines cat more t) (alike : Alike cat.mutable told more) :
    AgreeOpen s t := by
  have hdecision : ∀ key : PathKey, (storedResolution s key.1 key.2).map Resolution.keepSha =
      (storedResolution t key.1 key.2).map Resolution.keepSha :=
    fun key => (hs.paths key).decision_eq (ht.paths key) (alike.decided key)
  have hdigests : ∀ key : PathKey, storedResolution s key.1 key.2 = none →
      digests told key = digests more key := by
    intro key hundecided
    have hheld := (hs.paths key).decided
    rw [hundecided] at hheld
    exact alike.known key hheld
  have hconflicts : ∀ feed path sha, OpenFor s feed path sha ↔ OpenFor t feed path sha :=
    fun feed path sha => (hs.paths (feed, path)).openFor_congr (ht.paths (feed, path))
      (hdigests _) (hdecision _) sha
  refine ⟨?_, ?_, ?_, hconflicts, ?_⟩
  · intro key
    refine (hs.paths key).row_eq (ht.paths key) (hdigests key) (hdecision key) fun hmutable => ?_
    exact (hs.paths key).pointer_eq (ht.paths key) hmutable (alike.newest key hmutable)
  · intro register
    exact hs.quarantined_eq ht hconflicts (alike.judged register)
  · intro key
    have hsame := hdecision key
    unfold storedResolution at hsame
    rw [Option.map_map, Option.map_map] at hsame
    exact hsame
  · intro hash
    rw [Bool.eq_iff_iff, hs.revoked, ht.revoked]
    exact alike.revoked hash

theorem SiteRefines.agree (ht : SiteRefines cat told t) : Agree s t := by
  obtain ⟨rows, quarantines, decisions, -, revocations⟩ :=
    hs.agreeOpen ht (Alike.refl cat.mutable told)
  refine ⟨rows, quarantines, decisions, ?_, revocations⟩
  intro feed path sha
  rw [(hs.paths (feed, path)).named, (ht.paths (feed, path)).named]

end Agreement

end FondacoFormal.Convergence
