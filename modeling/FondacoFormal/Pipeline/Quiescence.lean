import FondacoFormal.Pipeline.Immutability
import FondacoFormal.Pipeline.Projection

/-!
# The projection once nothing is under way

Every operation projects the row it committed, but the store writes of two operations need not
come in the order of their commits.
-/

namespace FondacoFormal.Pipeline

open Library Library.Runs State Repl

/-! ## Every operation projects what it committed -/

/-- The writes name the digests now stored, and there is one for every digest that changed. -/
structure Projects (s t : SiteState) (writes : List ProjectionWrite) : Prop where
  names : ∀ w ∈ writes, digestAt (w.feed, w.path) t = some w.sha256
  covers : ∀ key, digestAt key t ≠ digestAt key s → ∃ w ∈ writes, (w.feed, w.path) = key

variable {writes : List ProjectionWrite}

namespace Projects

variable {s t : SiteState}

theorem same (hhosted : t.hosted = s.hosted) : Projects s t [] where
  names := List.forall_mem_nil _
  covers := fun key hchanged => absurd (by unfold digestAt; rw [hhosted]) hchanged

theorem single {w : ProjectionWrite} (hdigest : digestAt (w.feed, w.path) t = some w.sha256)
    (helsewhere : ∀ key, key ≠ (w.feed, w.path) → t.hosted.find key = s.hosted.find key) :
    Projects s t [w] where
  names := by
    intro other hmem
    rw [List.mem_singleton.mp hmem]
    exact hdigest
  covers := by
    intro key hchanged
    refine ⟨w, List.mem_singleton_self w, ?_⟩
    by_contra hne
    refine hchanged ?_
    unfold digestAt
    rw [helsewhere key fun heq => hne heq.symm]

theorem of_hosted {u v : SiteState} (projects : Projects s t writes)
    (hbefore : u.hosted = s.hosted) (hafter : v.hosted = t.hosted) : Projects u v writes := by
  have hold : ∀ key, digestAt key u = digestAt key s := fun key => by
    unfold digestAt
    rw [hbefore]
  have hnew : ∀ key, digestAt key v = digestAt key t := fun key => by
    unfold digestAt
    rw [hafter]
  refine ⟨fun w hmem => (hnew _).trans (projects.names w hmem), ?_⟩
  intro key hchanged
  rw [hold, hnew] at hchanged
  exact projects.covers key hchanged

end Projects

section Merges

variable (pg : Postgres) (e : JournalEntry) (s : SiteState)

theorem applyResolutionTx_projects (feed path coord decidedBy origin publisher : String)
    (r : Resolution) : Projects s (applyResolutionTx pg feed path coord r decidedBy s)
      [projection feed path (Resolution.side r) origin publisher] := by
  refine .single ?_ ?_
  · unfold digestAt
    rw [applyResolutionTx_hosted]
    obtain ⟨row, hfind, hsha⟩ := writeResolved_find_self feed path coord r _ s
    simp only [projection]
    rw [hfind]
    exact congrArg some hsha
  · intro key hne
    rw [applyResolutionTx_hosted]
    exact writeResolved_find_of_ne coord r _ s hne

theorem mergeResolved_projects (p : ManifestPut) (decision : Resolution) :
    Projects s (mergeResolved pg e p decision s).state (mergeResolved pg e p decision s).pending :=
  (applyResolutionTx_projects pg (fileRejected e p decision s) p.feed p.path p.coord e.originSite
    e.originSite p.publisher decision).of_hosted (fileRejected_spec e p decision s).1.symm rfl

theorem mergeDecision_projects (p : ConflictResolve) (decision : Resolution) :
    Projects s (mergeDecision pg e p decision s).state
      (mergeDecision pg e p decision s).pending :=
  (applyResolutionTx_projects pg (recordResolution p.feed p.path p.coord decision p.operator
    e.originSite s) p.feed p.path p.coord e.originSite e.originSite p.operator _).of_hosted rfl rfl

theorem mergeConflict_projects {p : ManifestPut} {existing : HostedRow}
    (hexisting : hostedState s p.feed p.path = some existing)
    (hdiffers : existing.sha256 ≠ p.sha256) :
    Projects s (mergeConflict e p existing s).state (mergeConflict e p existing s).pending := by
  obtain ⟨hosted, quarantine, row, c, hstate, hfind, hsha, -, helsewhere, -⟩ :=
    mergeConflict_spec e hexisting hdiffers
  have hpending : (mergeConflict e p existing s).pending =
      [projection p.feed p.path (if existing.sha256 < p.sha256 then HostedRow.side existing
        else ManifestPut.side p) e.originSite p.publisher] := by
    simp [mergeConflict, HostedRow.side, ManifestPut.side]
  rw [hpending, hstate]
  refine .single ?_ helsewhere
  unfold digestAt
  simp only [projection]
  rw [hfind, Option.map_some, hsha]
  split
  · rename_i hwins
    exact congrArg some (min_eq_right hwins.le)
  · rename_i hloses
    exact congrArg some (min_eq_left (not_lt.mp hloses))

theorem mergeUndecided_projects (p : ManifestPut) :
    Projects s (mergeUndecided e p s).state (mergeUndecided e p s).pending := by
  unfold mergeUndecided
  dsimp only
  cases hexisting : hostedState s p.feed p.path with
  | none =>
    refine .single ?_ fun key hne => Table.find_insertNew_of_ne _ _ hne
    unfold hostedState at hexisting
    unfold digestAt
    simp only [projection, insertHosted, Table.find_insertNew_self, hexisting]
    rfl
  | some existing =>
    dsimp only
    split
    · split
      · refine .single ?_ fun key hne => Table.find_modify_of_ne _ _ hne
        unfold digestAt
        simp only [projection]
        rw [updateHosted_find_self hexisting e]
        rfl
      · exact .same rfl
    · split
      · exact .same rfl
      · rename_i hdiffers
        exact mergeConflict_projects e s hexisting hdiffers

end Merges

variable {effect : Effect} {e : JournalEntry} {s : SiteState} {a : Applier}

theorem dispatch_projects {peer : String} (ran : dispatch a peer e s = .ok effect) :
    Projects s effect.state effect.pending := by
  unfold dispatch at ran
  split at ran
  · -- manifest_put
    unfold applyManifestPut at ran
    repeat' split at ran
    all_goals cases ran
    · exact mergeResolved_projects a.pg e s _ _
    · exact mergeUndecided_projects e s _
  · -- blob_available
    unfold applyBlobAvailable at ran
    repeat' split at ran
    all_goals cases ran
    all_goals exact .same rfl
  · -- token_revoke
    unfold applyTokenRevoke at ran
    repeat' split at ran
    all_goals cases ran
    rename_i hrevoke
    obtain ⟨tokens, rfl⟩ := revokeToken_tokens hrevoke
    exact .same rfl
  · -- quarantine_set
    unfold applyQuarantineSet at ran
    repeat' split at ran
    all_goals cases ran
    exact .same rfl
  · -- quarantine_release
    unfold applyQuarantineRelease at ran
    split at ran <;> cases ran
    exact .same rfl
  · -- conflict_resolve
    unfold applyConflictResolve at ran
    repeat' split at ran
    all_goals cases ran
    exact mergeDecision_projects a.pg e s _ _
  · cases ran

section Calls

variable (a : Applier) (peer : String) (e : JournalEntry) (s : SiteState)

variable {a peer e s} in
theorem attempted_projects {retried : Bool} {o : Outcome}
    (attempted : Attempted a peer e retried s o) : Projects s o.state o.projected := by
  cases attempted with
  | parked blobs reason bytes ran =>
    obtain ⟨parked, rfl⟩ := parkEvent_ok ran
    exact .same rfl
  | known => exact .same rfl
  | merged clock blobs stored effect _ _ _ _ ran state projected =>
    rw [state, projected]
    refine (dispatch_projects ran).of_hosted rfl ?_
    cases retried <;> rfl
  | stopped blobs bytes state silent =>
    rw [state, silent]
    exact .same rfl

theorem insert_projects {p : Publisher} {req : PublishRequest} {clock : TxClock} {t : SiteState}
    {h : HLC} {created : Bool} (ran : p.insert req clock s = .ok (t, h, created)) :
    Projects s t [publishProjection p req h] := by
  cases insert_effect ran with
  | kept found same hosted journal =>
    refine .single ?_ fun key _ => by rw [hosted]
    unfold digestAt
    rw [hosted]
    exact (congrArg (Option.map _) found).trans (congrArg some same)
  | written written announced silent =>
    exact .single (rowWritten_digest written) fun key hne => rowWritten_elsewhere written hne

theorem resolveConflict_projects {pg : Postgres} {site feed path coord keepSha operator : String}
    {clock : TxClock} {done : Resolved}
    (ran : resolveConflict pg site feed path coord keepSha operator clock s = .ok done) :
    Projects s done.state (resolvedProjections pg site feed path keepSha operator s) := by
  obtain ⟨side, stamped, hside, hsame, hdone⟩ := resolveConflict_step ran
  unfold resolvedProjections
  rw [hside]
  have hrecorded : s.hosted = (recordResolution feed path coord
      (SideMeta.decision side done.stamp) operator site stamped).hosted := hsame.hosted.symm
  exact (applyResolutionTx_projects pg _ feed path coord site site operator
    (SideMeta.decision side done.stamp)).of_hosted hrecorded hdone.hosted

end Calls

/-! ## The invariant -/

def projectedDigest (w : Projecting) (key : PathKey) : Option String :=
  (w.store key).map Manifest.sha256

def Outstanding (w : Projecting) (item : Queued) : Prop :=
  ∃ i, item ∈ (w.writers i).queued

/--
What was decided since the path last changed names the stored digest, and the
projection was decided since then or such a write is outstanding.
-/
structure KeepsUp (key : PathKey) (w : Projecting) : Prop where
  stored : w.decided key ≤ w.commits
  bounded : ∀ item, Outstanding w item → item.decided ≤ w.commits
  follows : ∃ changed ≤ w.commits,
    (∀ item, Outstanding w item → item.key = key → changed ≤ item.decided →
      digestAt key w.site = some item.write.sha256) ∧
    (changed ≤ w.decided key → projectedDigest w key = digestAt key w.site) ∧
    (changed ≤ w.decided key ∨
      ∃ item, Outstanding w item ∧ item.key = key ∧ changed ≤ item.decided)

def Quiescent (w : Projecting) : Prop :=
  ∀ i, w.writers i = .idle

def Agrees (key : PathKey) (w : Projecting) : Prop :=
  projectedDigest w key = digestAt key w.site

def Writer.due : Writer → Option Queued
  | writing (item :: _) => some item
  | rewriting item _ => some item
  | _ => none

/--
No store write replaces the projection of a later decision by another digest:
the writes of the path come in the order in which they were decided.
-/
def InOrder (key : PathKey) (w : Projecting) : ProjectOp → Prop
  | .next i _ => ∀ item ∈ (w.writers i).due, item.key = key →
      projectedDigest w key = some item.write.sha256 ∨ w.decided key ≤ item.decided
  | _ => True

instance (key : PathKey) (w : Projecting) : (op : ProjectOp) → Decidable (InOrder key w op)
  | .next i _ => inferInstanceAs (Decidable (∀ item ∈ (w.writers i).due, _ → _ ∨ _))
  | .publish .. | .apply .. | .retry .. | .resolve .. | .repair _ =>
    inferInstanceAs (Decidable True)

namespace KeepsUp

variable {key : PathKey} {w : Projecting}

theorem agrees (keeps : KeepsUp key w) (quiescent : Quiescent w) : Agrees key w := by
  obtain ⟨changed, -, -, hstored, hdecided⟩ := keeps.follows
  refine hstored (hdecided.resolve_right ?_)
  rintro ⟨item, ⟨i, hmem⟩, -⟩
  rw [quiescent i] at hmem
  cases hmem

variable {i : Nat} {after : Writer} {item : Queued}

theorem outstanding_moved {base : Projecting} (hbase : base.writers = w.writers) :
    Outstanding (base.moved i after) item ↔
      item ∈ after.queued ∨ ∃ j, j ≠ i ∧ item ∈ (w.writers j).queued := by
  unfold Outstanding Projecting.moved
  dsimp only
  rw [hbase]
  constructor
  · rintro ⟨j, hmem⟩
    by_cases heq : j = i
    · rw [heq, Function.update_self] at hmem
      exact .inl hmem
    · rw [Function.update_of_ne heq] at hmem
      exact .inr ⟨j, heq, hmem⟩
  · rintro (hmem | ⟨j, hne, hmem⟩)
    · exact ⟨i, by rwa [Function.update_self]⟩
    · exact ⟨j, by rwa [Function.update_of_ne hne]⟩

/-- A process moves on without a store write; a write it decides on names the stored digest. -/
theorem moved (keeps : KeepsUp key w) (hold : ∀ item ∈ (w.writers i).queued, item ∈ after.queued)
    (hnew : ∀ item ∈ after.queued, item ∈ (w.writers i).queued ∨
      item.decided = w.commits ∧ digestAt item.key w.site = some item.write.sha256) :
    KeepsUp key (w.moved i after) := by
  have hcases : ∀ item, Outstanding (w.moved i after) item → Outstanding w item ∨
      item.decided = w.commits ∧ digestAt item.key w.site = some item.write.sha256 := by
    intro item hmem
    rcases (outstanding_moved rfl).mp hmem with hnext | ⟨j, -, hother⟩
    · exact (hnew item hnext).imp_left fun hmem => ⟨i, hmem⟩
    · exact .inl ⟨j, hother⟩
  obtain ⟨changed, hchanged, hnames, hstored, hdecided⟩ := keeps.follows
  refine ⟨keeps.stored, ?_, changed, hchanged, ?_, hstored, hdecided.imp_right ?_⟩
  · intro item hmem
    rcases hcases item hmem with hout | ⟨hnow, -⟩
    · exact keeps.bounded item hout
    · exact hnow.le
  · intro item hmem hkey hlate
    rcases hcases item hmem with hout | ⟨-, hdigest⟩
    · exact hnames item hout hkey hlate
    · rw [← hkey]
      exact hdigest
  · rintro ⟨item, ⟨j, hmem⟩, hrest⟩
    refine ⟨item, (outstanding_moved rfl).mpr ?_, hrest⟩
    by_cases heq : j = i
    · rw [heq] at hmem
      exact .inl (hold item hmem)
    · exact .inr ⟨j, heq, hmem⟩

theorem committed (keeps : KeepsUp key w) {site : SiteState} {replicated : Bool}
    (hidle : w.writers i = .idle) (projects : Projects w.site site writes) :
    KeepsUp key (w.committed i site writes replicated) := by
  have hcases : ∀ item, Outstanding (w.committed i site writes replicated) item ↔
      Outstanding w item ∨ ∃ write ∈ writes, item = ⟨write, replicated, w.commits + 1⟩ := by
    intro item
    have hwriters : { w with site := site, commits := w.commits + 1 }.writers = w.writers := rfl
    unfold Projecting.committed
    rw [outstanding_moved hwriters, or_comm]
    refine or_congr ⟨fun ⟨j, _, hmem⟩ => ⟨j, hmem⟩, ?_⟩ ?_
    · rintro ⟨j, hmem⟩
      refine ⟨j, ?_, hmem⟩
      rintro rfl
      rw [hidle] at hmem
      cases hmem
    · simp only [Writer.queued, List.mem_map]
      exact exists_congr fun write => and_congr_right fun _ => eq_comm
  have hnamed : ∀ item, Outstanding (w.committed i site writes replicated) item →
      item.key = key → item.decided = w.commits + 1 →
        digestAt key site = some item.write.sha256 := by
    intro item hmem hkey hnow
    rcases (hcases item).mp hmem with hout | ⟨write, hwrite, rfl⟩
    · have hbound := keeps.bounded item hout
      omega
    · rw [← hkey]
      exact projects.names write hwrite
  have hbounded : ∀ item, Outstanding (w.committed i site writes replicated) item →
      item.decided ≤ w.commits + 1 := by
    intro item hmem
    rcases (hcases item).mp hmem with hout | ⟨write, -, rfl⟩
    · exact (keeps.bounded item hout).trans (Nat.le_succ _)
    · exact le_rfl
  have hstored := keeps.stored
  refine ⟨hstored.trans (Nat.le_succ _), hbounded, ?_⟩
  by_cases hdigest : digestAt key site = digestAt key w.site
  · obtain ⟨changed, hchanged, hnames, hprojected, hdecided⟩ := keeps.follows
    refine ⟨changed, hchanged.trans (Nat.le_succ _), ?_, ?_, hdecided.imp_right ?_⟩
    · intro item hmem hkey hlate
      rcases (hcases item).mp hmem with hout | ⟨write, -, rfl⟩
      · exact hdigest.trans (hnames item hout hkey hlate)
      · exact hnamed _ hmem hkey rfl
    · intro hlate
      exact (hprojected hlate).trans hdigest.symm
    · rintro ⟨item, hout, hrest⟩
      exact ⟨item, (hcases item).mpr (.inl hout), hrest⟩
  · obtain ⟨write, hwrite, hkey⟩ := projects.covers key hdigest
    refine ⟨w.commits + 1, le_rfl, ?_, ?_, .inr ?_⟩
    · intro item hmem hkey hlate
      exact hnamed item hmem hkey (le_antisymm (hbounded item hmem) hlate)
    · intro hlate
      have himpossible : w.commits + 1 ≤ w.decided key := hlate
      omega
    · exact ⟨⟨write, replicated, w.commits + 1⟩, (hcases _).mpr (.inr ⟨write, hwrite, rfl⟩), hkey,
        le_rfl⟩

theorem put_self (now : Int) (htarget : replicatedTarget key.1 key.2 = true)
    (hkey : item.key = key) :
    projectedDigest (w.put now item) key = some item.write.sha256 ∧
      (w.put now item).decided key = max (w.decided key) item.decided := by
  have hwritten :
    ¬ (item.replicated && !replicatedTarget item.write.feed item.write.path) = true := by
    rw [← hkey] at htarget
    simp only [Queued.key] at htarget
    simp [htarget]
  unfold projectedDigest Projecting.put
  rw [if_neg hwritten, hkey]
  simp [projectedManifest]

theorem put_other (now : Int) (hkey : item.key ≠ key) :
    projectedDigest (w.put now item) key = projectedDigest w key ∧
      (w.put now item).decided key = w.decided key := by
  unfold projectedDigest Projecting.put
  split
  · exact ⟨rfl, rfl⟩
  · simp [Function.update_of_ne hkey.symm]

variable (keeps : KeepsUp key w)

include keeps

theorem put (htarget : replicatedTarget key.1 key.2 = true) {now : Int}
    (hqueued : (w.writers i).queued = item :: after.queued)
    (inOrder : item.key = key → projectedDigest w key = some item.write.sha256 ∨
      w.decided key ≤ item.decided) : KeepsUp key ((w.put now item).moved i after) := by
  have hfields : (w.put now item).site = w.site ∧ (w.put now item).commits = w.commits ∧
      (w.put now item).writers = w.writers := by
    unfold Projecting.put
    split <;> exact ⟨rfl, rfl, rfl⟩
  obtain ⟨hsite, hcommits, hwriters⟩ := hfields
  have hout : ∀ other, Outstanding ((w.put now item).moved i after) other →
    Outstanding w other := by
    intro other hmem
    rcases (outstanding_moved hwriters).mp hmem with hnext | ⟨j, -, hmem⟩
    · exact ⟨i, by rw [hqueued]; exact List.mem_cons_of_mem item hnext⟩
    · exact ⟨j, hmem⟩
  have hstays : ∀ other, Outstanding w other →
      other = item ∨ Outstanding ((w.put now item).moved i after) other := by
    rintro other ⟨j, hmem⟩
    by_cases heq : j = i
    · rw [heq, hqueued] at hmem
      exact (List.mem_cons.mp hmem).imp_right fun hnext =>
        (outstanding_moved hwriters).mpr (.inl hnext)
    · exact .inr ((outstanding_moved hwriters).mpr (.inr ⟨j, heq, hmem⟩))
  have hitem : Outstanding w item := ⟨i, by rw [hqueued]; exact List.mem_cons_self⟩
  have hbounded : ∀ other, Outstanding ((w.put now item).moved i after) other →
      other.decided ≤ (w.put now item).commits := by
    intro other hmem
    rw [hcommits]
    exact keeps.bounded other (hout other hmem)
  obtain ⟨changed, hchanged, hnames, hprojected, hdecided⟩ := keeps.follows
  have hnamed : ∀ other, Outstanding ((w.put now item).moved i after) other → other.key = key →
      changed ≤ other.decided → digestAt key (w.put now item).site = some other.write.sha256 := by
    intro other hmem
    rw [hsite]
    exact hnames other (hout other hmem)
  by_cases hkey : item.key = key
  · obtain ⟨hdigest, hmax⟩ := put_self now htarget hkey
    refine ⟨?_, hbounded, changed, hchanged.trans_eq hcommits.symm, hnamed, ?_, ?_⟩
    · exact hmax.trans_le (max_le (keeps.stored.trans_eq hcommits.symm)
        ((keeps.bounded item hitem).trans_eq hcommits.symm))
    · -- A write decided before the path changed repeats what is stored.
      intro hlate
      change projectedDigest (w.put now item) key = digestAt key (w.put now item).site
      rw [hdigest, hsite]
      rcases le_or_gt changed item.decided with hrecent | hearly
      · exact (hnames item hitem hkey hrecent).symm
      · have hstored : changed ≤ w.decided key := by
          have hlate : changed ≤ max (w.decided key) item.decided := hlate.trans_eq hmax
          omega
        rcases inOrder hkey with hsame | hnewer
        · rw [← hsame]
          exact hprojected hstored
        · omega
    · change changed ≤ (w.put now item).decided key ∨ _
      rw [hmax]
      rcases hdecided with hstored | ⟨other, hother, hrest⟩
      · exact .inl (hstored.trans (le_max_left _ _))
      · rcases hstays other hother with rfl | hmem
        · exact .inl (hrest.2.trans (le_max_right _ _))
        · exact .inr ⟨other, hmem, hrest⟩
  · obtain ⟨hdigest, hsame⟩ := put_other (w := w) now hkey
    refine ⟨?_, hbounded, changed, hchanged.trans_eq hcommits.symm, hnamed, ?_, ?_⟩
    · exact hsame.trans_le (keeps.stored.trans_eq hcommits.symm)
    · intro hlate
      change projectedDigest (w.put now item) key = digestAt key (w.put now item).site
      rw [hdigest, hsite]
      exact hprojected (hlate.trans_eq hsame)
    · change changed ≤ (w.put now item).decided key ∨ _
      rw [hsame]
      refine hdecided.imp_right ?_
      rintro ⟨other, hother, hrest⟩
      rcases hstays other hother with rfl | hmem
      · exact absurd hrest.1 hkey
      · exact ⟨other, hmem, hrest⟩

theorem reads (hbefore : (w.writers i).queued = []) (hafter : after.queued = []) :
    KeepsUp key (w.moved i after) := by
  refine keeps.moved ?_ ?_
  · rw [hbefore]
    exact List.forall_mem_nil _
  · rw [hafter]
    exact List.forall_mem_nil _

theorem next (htarget : replicatedTarget key.1 key.2 = true) (pg : Postgres) {now : Int}
    (inOrder : InOrder key w (.next i now)) : KeepsUp key (w.next pg i now) := by
  have hqueued : ∀ writer, w.writers i = writer → (w.writers i).queued = writer.queued :=
    fun writer hwriter => congrArg Writer.queued hwriter
  unfold InOrder at inOrder
  unfold Projecting.next
  cases hwriter : w.writers i with
  | idle => exact keeps.reads (hqueued _ hwriter) rfl
  | writing queue =>
    cases queue with
    | nil => exact keeps.reads (hqueued _ hwriter) rfl
    | cons item rest =>
      exact keeps.put htarget (hqueued _ hwriter) (inOrder item (congrArg Writer.due hwriter))
  | repairing rows =>
    cases rows with
    | nil => exact keeps.reads (hqueued _ hwriter) rfl
    | cons listed rest =>
      obtain ⟨path, row⟩ := listed
      refine keeps.reads (hqueued _ hwriter) ?_
      split <;> rfl
  | rereading path row rest =>
    dsimp only
    cases hread : hostedRow pg path.1 path.2 w.site.hosted with
    | none => exact keeps.reads (hqueued _ hwriter) rfl
    | some read =>
      obtain ⟨found, current⟩ := read
      have hfind := find_of_hostedRow hread
      dsimp only
      split
      · exact keeps.reads (hqueued _ hwriter) rfl
      · -- The row that was read again is the one that is projected.
        refine keeps.moved ?_ ?_
        · rw [hqueued _ hwriter]
          exact List.forall_mem_nil _
        · intro item hmem
          rw [List.mem_singleton.mp hmem]
          exact .inr ⟨rfl, congrArg (Option.map _) hfind⟩
  | rewriting item rest =>
    exact keeps.put htarget (hqueued _ hwriter) (inOrder item (congrArg Writer.due hwriter))

theorem act (p : Publisher) {op : ProjectOp} (hstarts : op.starts = some i)
    (hidle : w.writers i = .idle) : KeepsUp key (op.act p w) := by
  cases op with
  | publish j req clock staged =>
    cases hstarts
    simp only [ProjectOp.act]
    split
    · exact keeps
    · split
      · exact keeps
      · rename_i hran
        exact keeps.committed hidle (insert_projects w.site hran)
  | apply j a peer e =>
    cases hstarts
    exact keeps.committed hidle (attempted_projects (applyOne_attempted a peer e w.site))
  | retry j a peer e =>
    cases hstarts
    exact keeps.committed hidle (attempted_projects (retryOne_attempted a peer e w.site))
  | resolve j feed path coord keepSha operator clock =>
    cases hstarts
    simp only [ProjectOp.act]
    split
    · exact keeps
    · rename_i hran
      exact keeps.committed hidle (resolveConflict_projects w.site hran)
  | repair j =>
    cases hstarts
    exact keeps.reads (congrArg Writer.queued hidle) rfl
  | next j now => cases hstarts

theorem step (htarget : replicatedTarget key.1 key.2 = true) (p : Publisher) (op : ProjectOp)
    (inOrder : InOrder key w op) : KeepsUp key (op.run p w) := by
  unfold ProjectOp.run
  cases hstarts : op.starts with
  | none =>
    cases op with
    | next i now => exact keeps.next htarget p.pg inOrder
    | _ => cases hstarts
  | some i =>
    dsimp only
    split
    · rename_i hidle
      exact keeps.act p hstarts hidle
    · exact keeps

end KeepsUp

/-! ## Every run -/

/-- Nothing is under way and the projection of the path agrees with its row. -/
structure Settled (key : PathKey) (w : Projecting) : Prop where
  quiescent : Quiescent w
  agrees : Agrees key w
  decided : w.decided key ≤ w.commits

theorem Settled.keepsUp {key : PathKey} {w : Projecting} (settled : Settled key w) :
    KeepsUp key w := by
  have hnone : ∀ item, ¬ Outstanding w item := by
    rintro item ⟨i, hmem⟩
    rw [settled.quiescent i] at hmem
    cases hmem
  exact ⟨settled.decided, fun item hmem => absurd hmem (hnone item), w.decided key,
    settled.decided, fun item hmem => absurd hmem (hnone item), fun _ => settled.agrees,
    .inl le_rfl⟩

/--
In every interleaving of publishes, replicated events, resolutions and repair
passes whose store writes of a path come in the order of the decisions they
project, the projection names the digest of the committed row whenever no process
is at work.
-/
theorem projection_agrees_at_quiescence (p : Publisher) (key : PathKey) (start : Projecting)
    (settled : Settled key start) (htarget : replicatedTarget key.1 key.2 = true)
    (ops : List ProjectOp) (inOrder : Meets (ProjectOp.run p) (InOrder key) ops start)
    (quiescent : Quiescent (runAll (ProjectOp.run p) ops start)) :
    Agrees key (runAll (ProjectOp.run p) ops start) := by
  have hstep : ∀ w op, KeepsUp key w → InOrder key w op → KeepsUp key (ProjectOp.run p op w) :=
    fun w op keeps hop => keeps.step htarget p op hop
  exact (invariant_runAll hstep settled.keepsUp inOrder).agrees quiescent

def sampleRepublish (sha256 : String) : PublishRequest :=
  { samplePublish sha256 with mutable := true }

def emptyProjecting : Projecting where
  site := {}
  store := fun _ => none

theorem emptyProjecting_settled (key : PathKey) : Settled key emptyProjecting :=
  ⟨fun _ => rfl, rfl, le_rfl⟩

def repairedSteps : List ProjectOp :=
  [.publish 0 (sampleRepublish "aa") ⟨10, 11, 12, 10⟩ true,
    .publish 1 (sampleRepublish "bb") ⟨20, 21, 22, 20⟩ true, .next 0 30, .repair 2, .next 2 31,
    .next 2 32, .next 1 33, .next 2 34, .next 0 35, .next 1 36, .next 2 37]

theorem projection_agrees_repaired :
    Agrees ("npm", "pkg/1.tgz")
        (runAll (ProjectOp.run ⟨"east", .plain, true⟩) repairedSteps emptyProjecting) ∧
      digestAt ("npm", "pkg/1.tgz")
        (runAll (ProjectOp.run ⟨"east", .plain, true⟩) repairedSteps emptyProjecting).site =
          some "bb" := by
  refine ⟨?_, by decide +kernel⟩
  refine projection_agrees_at_quiescence _ _ _ (emptyProjecting_settled _) (by decide +kernel) _
    (by decide +kernel) ?_
  rintro (_ | _ | _ | i) <;> rfl

def overtakenSteps : List ProjectOp :=
  [.publish 0 (sampleRepublish "aa") ⟨10, 11, 12, 10⟩ true,
    .publish 1 (sampleRepublish "bb") ⟨20, 21, 22, 20⟩ true, .next 1 30, .next 0 31, .next 0 32,
    .next 1 33]

theorem late_write_restores_old_projection :
    Settled ("npm", "pkg/1.tgz") emptyProjecting ∧
      replicatedTarget "npm" "pkg/1.tgz" = true ∧
      Quiescent (runAll (ProjectOp.run ⟨"east", .plain, true⟩) overtakenSteps emptyProjecting) ∧
      ¬ Agrees ("npm", "pkg/1.tgz")
        (runAll (ProjectOp.run ⟨"east", .plain, true⟩) overtakenSteps emptyProjecting) := by
  refine ⟨emptyProjecting_settled _, by decide +kernel, ?_, by unfold Agrees; decide +kernel⟩
  rintro (_ | _ | i) <;> rfl

end FondacoFormal.Pipeline
