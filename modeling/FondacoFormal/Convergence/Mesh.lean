import FondacoFormal.Convergence.OwnWrites

/-!
# A mesh of sites

Every site publishes and resolves on its own account and applies what its peers
announce, in any interleaving.  Sites that have applied everything serve the same
digests and keep the same decisions.
-/

namespace FondacoFormal.Convergence

open Library Library.Runs State Repl

inductive MeshCall where
  | publish (req : PublishRequest) (clock : TxClock)
  | resolve (feed path coord keepSha operator : String) (clock : TxClock)
  | deliver (now startedAt : Int) (fetch : Fetch) (e : JournalEntry)
  | retry (now startedAt : Int) (fetch : Fetch) (e : JournalEntry)

/-- The state of the site after the call; a failed transaction changes nothing. -/
def MeshCall.step (a : Applier) : MeshCall → SiteState → SiteState
  | publish req clock, s =>
    ((insertWithJournal a.pg a.site req clock s).toOption.map Published.state).getD s
  | resolve feed path coord keepSha operator clock, s =>
    ((resolveConflict a.pg a.site feed path coord keepSha operator clock s).toOption.map
      Resolved.state).getD s
  | deliver now startedAt fetch e, s =>
    (applyOne { a with now := now, startedAt := startedAt, fetch := fetch } e.originSite e s).state
  | retry now startedAt fetch e, s =>
    (retryOne { a with now := now, startedAt := startedAt, fetch := fetch } e.originSite e s).state

def meshStep (nodes : String → Applier) (op : String × MeshCall) (m : String → SiteState) :
    String → SiteState :=
  Function.update m op.1 (op.2.step (nodes op.1) (m op.1))

/-- A peer's entry comes out of that peer's journal, and a path has one flag. -/
def CallPremise (flags : PathKey → Bool) (sites : Set String) (m : String → SiteState)
    (op : String × MeshCall) : Prop :=
  op.1 ∈ sites ∧
  match op.2 with
  | .publish req _ => req.mutable = flags (req.feed, req.path)
  | .resolve _ _ _ _ _ _ => True
  | .deliver _ _ _ e => e.originSite ≠ op.1 ∧ e ∈ journaled (m e.originSite).journal
  | .retry _ _ _ e => e.originSite ≠ op.1 ∧ e ∈ journaled (m e.originSite).journal

def CallInTurn (m : String → SiteState) (op : String × MeshCall) : Prop :=
  match op.2 with
  | .deliver _ _ _ e => InTurn op.1 (m op.1) e
  | .retry _ _ _ e => InTurn op.1 (m op.1) e
  | _ => True

structure MeshFollows (flags : PathKey → Bool) (sites : Set String) (m : String → SiteState) :
    Prop where
  follows : ∀ site, ∃ shown, Follows flags site shown (m site)
  copied : ∀ site, ∀ e ∈ journaled (m site).journal, e ∈ journaled (m e.originSite).journal
  flagged : ∀ site, ∀ e ∈ journaled (m site).journal, Flagged flags e
  members : ∀ site, ∀ e ∈ journaled (m site).journal, e.originSite ∈ sites

section Mesh

variable {flags : PathKey → Bool} {sites : Set String} {m : String → SiteState} {site : String}
  {t : SiteState}

theorem MeshFollows.initial : MeshFollows flags sites fun _ => {} := by
  have hempty : journaled ({} : SiteState).journal = ∅ := by
    ext e
    exact iff_of_false (fun ⟨_, hfind, _⟩ => nomatch hfind) (Set.notMem_empty e)
  have hnothing : ∀ e, e ∉ journaled ({} : SiteState).journal := by
    intro e
    rw [hempty]
    exact Set.notMem_empty e
  have htold : announced {} = ∅ := by
    unfold announced
    rw [hempty, observed_empty]
  refine ⟨fun site => ⟨∅, ?_⟩, fun _ e hmem => absurd hmem (hnothing e),
    fun _ e hmem => absurd hmem (hnothing e), fun _ e hmem => absurd hmem (hnothing e)⟩
  exact
    { paths := .empty
      known := fun key => by rw [htold]
      newest := fun key _ => by
        rw [htold]
        exact .empty rfl
      decided := fun key => by
        rw [htold]
        exact .empty rfl
      clock := fun e hmem => absurd hmem (hnothing e) }

theorem flagged_of_event {e : JournalEntry} {event : Event} (hevent : e.event = event)
    (hflag : ∀ p, event = .manifestPut (.ok p) → p.mutable = flags (p.feed, p.path)) :
    Flagged flags e := by
  intro p body
  exact hflag p (hevent.symm.trans body)

section

variable (inv : MeshFollows flags sites m)

include inv

theorem MeshFollows.update (hfollows : ∃ shown, Follows flags site shown t)
    (hkept : journaled (m site).journal ⊆ journaled t.journal)
    (hgrown : ∀ e ∈ journaled t.journal, e ∈ journaled (m site).journal ∨
      (Flagged flags e ∧ e.originSite ∈ sites) ∧
        (e.originSite = site ∨ e ∈ journaled (m e.originSite).journal)) :
    MeshFollows flags sites (Function.update m site t) := by
  have hlift : ∀ {e other}, e ∈ journaled (m other).journal →
      e ∈ journaled (Function.update m site t other).journal := by
    intro e other hmem
    by_cases heq : other = site
    · subst heq
      rw [Function.update_self]
      exact hkept hmem
    · rw [Function.update_of_ne heq]
      exact hmem
  have hold : ∀ {other e}, e ∈ journaled (m other).journal →
      (Flagged flags e ∧ e.originSite ∈ sites) ∧
        e ∈ journaled (Function.update m site t e.originSite).journal :=
    fun hmem => ⟨⟨inv.flagged _ _ hmem, inv.members _ _ hmem⟩, hlift (inv.copied _ _ hmem)⟩
  have hgood : ∀ other, ∀ e ∈ journaled (Function.update m site t other).journal,
      (Flagged flags e ∧ e.originSite ∈ sites) ∧
        e ∈ journaled (Function.update m site t e.originSite).journal := by
    intro other e hmem
    by_cases heq : other = site
    · subst heq
      rw [Function.update_self] at hmem
      rcases hgrown e hmem with hbefore | ⟨hgood, rfl | hcopied⟩
      · exact hold hbefore
      · rw [Function.update_self]
        exact ⟨hgood, hmem⟩
      · exact ⟨hgood, hlift hcopied⟩
    · rw [Function.update_of_ne heq] at hmem
      exact hold hmem
  refine ⟨?_, fun other e hmem => (hgood other e hmem).2,
    fun other e hmem => (hgood other e hmem).1.1, fun other e hmem => (hgood other e hmem).1.2⟩
  intro other
  by_cases heq : other = site
  · subst heq
    rw [Function.update_self]
    exact hfollows
  · rw [Function.update_of_ne heq]
    exact inv.follows other

theorem MeshFollows.publish (hmember : site ∈ sites) {pg : Postgres} {req : PublishRequest}
    {done : Published} (hpg : ∀ event stored, pg.jsonb event = some stored → stored = event)
    (hflag : req.mutable = flags (req.feed, req.path))
    (commit : PublishCommit pg site req (m site) done) :
    MeshFollows flags sites (Function.update m site done.state) := by
  obtain ⟨shown, follows⟩ := inv.follows site
  refine inv.update (follows.publish hpg hflag commit) ?_ ?_
  · cases commit with
    | unannounced same journal later clock => rw [journal]
    | announced row journal later clock first second =>
      rw [second.journal, first.journal, journal]
      exact (Set.subset_insert _ _).trans (Set.subset_insert _ _)
  · intro e hmem
    cases commit with
    | unannounced same journal later clock =>
      rw [journal] at hmem
      exact .inl hmem
    | announced row journal later clock first second =>
      rw [second.journal, first.journal, journal] at hmem
      rcases hmem with rfl | rfl | hold
      · refine .inr ⟨⟨flagged_of_event (hpg _ _ second.event) nofun, ?_⟩, .inl second.origin⟩
        rw [second.origin]
        exact hmember
      · refine .inr ⟨⟨flagged_of_event (hpg _ _ first.event) ?_, ?_⟩, .inl first.origin⟩
        · intro p hp
          cases hp
          exact hflag
        · rw [first.origin]
          exact hmember
      · exact .inl hold

theorem MeshFollows.resolve (hmember : site ∈ sites) {pg : Postgres}
    {feed path coord keepSha operator : String} {clock : TxClock} {done : Resolved}
    (hpg : ∀ event stored, pg.jsonb event = some stored → stored = event)
    (ran : resolveConflict pg site feed path coord keepSha operator clock (m site) = .ok done) :
    MeshFollows flags sites (Function.update m site done.state) := by
  obtain ⟨shown, follows⟩ := inv.follows site
  obtain ⟨-, -, decided, -, -, -, -, hjournal, -, -, append⟩ := resolveConflict_commit ran
  have hinsert : journaled done.state.journal = insert done.entry (journaled (m site).journal) := by
    rw [append.journal, hjournal]
  refine inv.update (follows.resolve hpg ran) ?_ ?_
  · rw [hinsert]
    exact Set.subset_insert _ _
  · intro e hmem
    rw [hinsert] at hmem
    rcases hmem with rfl | hold
    · refine .inr ⟨⟨flagged_of_event (hpg _ _ append.event) nofun, ?_⟩, .inl append.origin⟩
      rw [append.origin]
      exact hmember
    · exact .inl hold

theorem MeshFollows.attempt {a : Applier} {e : JournalEntry}
    (hpg : ∀ event stored, a.pg.jsonb event = some stored → stored = event)
    (hforeign : e.originSite ≠ site) (hserved : e ∈ journaled (m e.originSite).journal)
    (hturn : InTurn site (m site) e) {peer : String} (attempt : Attempt a peer e (m site) t) :
    MeshFollows flags sites (Function.update m site t) := by
  obtain ⟨shown, follows⟩ := inv.follows site
  have hflagged := inv.flagged _ e hserved
  have hknown : ∀ row, (m site).journal.find e.key = some row →
      e ∈ journaled (m site).journal := by
    intro row hfind
    have hcopy : row.entry e.key ∈ journaled (m site).journal := ⟨row, hfind, rfl⟩
    have hsame := journaled_unique (inv.copied site _ hcopy) hserved rfl
    rw [← hsame]
    exact hcopy
  obtain ⟨hfollows, hjournal⟩ := follows.attempt hpg hflagged hforeign hturn hknown attempt
  refine inv.update hfollows ?_ ?_
  · rcases hjournal with hsame | hinsert
    · rw [hsame]
    · rw [hinsert]
      exact Set.subset_insert _ _
  · intro other hmem
    rcases hjournal with hsame | hinsert
    · rw [hsame] at hmem
      exact .inl hmem
    · rw [hinsert] at hmem
      rcases hmem with rfl | hold
      · exact .inr ⟨⟨hflagged, inv.members _ _ hserved⟩, .inr hserved⟩
      · exact .inl hold

end

theorem MeshFollows.step {nodes : String → Applier} (hsite : ∀ site, (nodes site).site = site)
    (hpg : ∀ site event stored, (nodes site).pg.jsonb event = some stored → stored = event)
    (m : String → SiteState) (op : String × MeshCall) (inv : MeshFollows flags sites m)
    (hcond : CallPremise flags sites m op ∧ CallInTurn m op) :
    MeshFollows flags sites (meshStep nodes op m) := by
  obtain ⟨site, call⟩ := op
  obtain ⟨⟨hmember, hpremise⟩, hturn⟩ := hcond
  unfold meshStep
  let P (t : SiteState) := MeshFollows flags sites (Function.update m site t)
  have hkept : P (m site) := by
    simp only [P, Function.update_eq_self]
    exact inv
  cases call with
  | publish req clock =>
    simp only [MeshCall.step, hsite]
    exact Fallible.map_getD_keeps (P := P) hkept fun done hran =>
      inv.publish hmember (hpg site) hpremise (insertWithJournal_commit hran).1
  | resolve feed path coord keepSha operator clock =>
    simp only [MeshCall.step, hsite]
    exact Fallible.map_getD_keeps (P := P) hkept fun done hran =>
      inv.resolve hmember (hpg site) hran
  | deliver now startedAt fetch e =>
    exact inv.attempt (a := { nodes site with now := now, startedAt := startedAt, fetch := fetch })
      (hpg site) hpremise.1 hpremise.2 hturn (applyOne_attempted _ _ _ _).attempt
  | retry now startedAt fetch e =>
    exact inv.attempt (a := { nodes site with now := now, startedAt := startedAt, fetch := fetch })
      (hpg site) hpremise.1 hpremise.2 hturn (retryOne_attempted _ _ _ _).attempt

/-- Sites with the same journal entries serve the same digests and keep the same decisions. -/
theorem Follows.agree {left right : String} {shown more : Set Observation} {s t : SiteState}
    (hs : Follows flags left shown s) (ht : Follows flags right more t)
    (hsame : journaled s.journal = journaled t.journal) (key : PathKey) :
    (s.hosted.find key).map HostedRow.sha256 = (t.hosted.find key).map HostedRow.sha256 ∧
      (s.resolutions.find key).map ResolutionRow.keepSha =
        (t.resolutions.find key).map ResolutionRow.keepSha := by
  have htold : announced s = announced t := by
    unfold announced
    rw [hsame]
  have hdecision : (storedResolution s key.1 key.2).map Resolution.keepSha =
      (storedResolution t key.1 key.2).map Resolution.keepSha := by
    have hleft := hs.decided key
    rw [htold] at hleft
    have hlabels := hleft.label_unique (ht.decided key)
    rw [Option.map_map, Option.map_map] at hlabels
    exact hlabels
  have hpointer : flags key = true →
      (s.hosted.find key).map HostedRow.sha256 = (t.hosted.find key).map HostedRow.sha256 := by
    intro hmutable
    have hleft := hs.newest key hmutable
    rw [htold] at hleft
    have hlabels := hleft.label_unique (ht.newest key hmutable)
    rw [Option.map_map, Option.map_map] at hlabels
    exact hlabels
  refine ⟨(hs.paths key).row_eq (ht.paths key) ?_ hdecision hpointer, ?_⟩
  · intro _
    rw [hs.known, ht.known, htold]
  · unfold storedResolution at hdecision
    rw [Option.map_map, Option.map_map] at hdecision
    exact hdecision

end Mesh

/--
A site's own writes converge with its peers': in every run of a mesh in which
peers' events are applied in turn, once every entry of every site is in every
journal, all sites store the same digest for every path and keep the same digest
for every resolved one.
-/
theorem own_writes_converge (nodes : String → Applier) (hsite : ∀ site, (nodes site).site = site)
    (hpg : ∀ site event stored, (nodes site).pg.jsonb event = some stored → stored = event)
    (flags : PathKey → Bool) (sites : Set String) (ops : List (String × MeshCall))
    (hmeets : Meets (meshStep nodes)
      (fun m op => CallPremise flags sites m op ∧ CallInTurn m op) ops fun _ => {})
    (happlied : ∀ left ∈ sites, ∀ right ∈ sites,
      ∀ e ∈ journaled (runAll (meshStep nodes) ops (fun _ => {}) right).journal,
        e.originSite = right →
          e ∈ journaled (runAll (meshStep nodes) ops (fun _ => {}) left).journal)
    (left right : String) (hleft : left ∈ sites) (hright : right ∈ sites) (key : PathKey) :
    ((runAll (meshStep nodes) ops (fun _ => {}) left).hosted.find key).map HostedRow.sha256 =
        ((runAll (meshStep nodes) ops (fun _ => {}) right).hosted.find key).map HostedRow.sha256 ∧
      ((runAll (meshStep nodes) ops (fun _ => {}) left).resolutions.find key).map
          ResolutionRow.keepSha =
        ((runAll (meshStep nodes) ops (fun _ => {}) right).resolutions.find key).map
          ResolutionRow.keepSha := by
  have inv : MeshFollows flags sites (runAll (meshStep nodes) ops fun _ => {}) :=
    invariant_runAll (MeshFollows.step hsite hpg) MeshFollows.initial hmeets
  have hsub : ∀ {one other}, one ∈ sites →
      journaled (runAll (meshStep nodes) ops (fun _ => {}) other).journal ⊆
        journaled (runAll (meshStep nodes) ops (fun _ => {}) one).journal := by
    intro one other hone e hmem
    exact happlied one hone e.originSite (inv.members other e hmem) e (inv.copied other e hmem) rfl
  obtain ⟨shown, hs⟩ := inv.follows left
  obtain ⟨more, ht⟩ := inv.follows right
  exact hs.agree ht ((hsub hright).antisymm (hsub hleft)) key

/-! ## Two sites -/

def latest (c : Char) : PublishRequest where
  feed := "npm"
  path := "pkg/latest"
  coord := "pkg@latest"
  sha256 := digestOf c
  size := 10
  checksums := []
  metadata := none
  mutable := true
  identity := "op"

def latestEntries (site : String) (c : Char) (put bytes : HLC) : List JournalEntry :=
  [⟨site, 1, .manifestPut (.ok ((latest c).payload put)), put, 1⟩,
    ⟨site, 2, .blobAvailable (.ok ⟨digestOf c, 10⟩), bytes, 1⟩]

def twoNodes (site : String) : Applier :=
  lazyApplier site 2000

def northAndSouth : Set String :=
  {"north", "south"}

def deliveries (site : String) (entries : List JournalEntry) : List (String × MeshCall) :=
  entries.map fun e => (site, .deliver 2000 0 (fun _ _ _ => .ok ()) e)

def publishedAtNorth : List (String × MeshCall) :=
  ("north", .publish (latest 'a') ⟨1000, 2000, 2000, 0⟩) ::
    deliveries "south" (latestEntries "north" 'a' ⟨2000, 0⟩ ⟨2000, 1⟩)

theorem own_writes_converge_publishedAtNorth :
    ((runAll (meshStep twoNodes) publishedAtNorth (fun _ => {}) "south").hosted.find
        ("npm", "pkg/latest")).map HostedRow.sha256 = some (digestOf 'a') := by
  have hnorth : ((runAll (meshStep twoNodes) publishedAtNorth (fun _ => {}) "north").hosted.find
      ("npm", "pkg/latest")).map HostedRow.sha256 = some (digestOf 'a') := rfl
  rw [← hnorth]
  refine (own_writes_converge twoNodes (fun _ => rfl)
    (fun _ _ _ hstored => (Option.some.inj hstored).symm) (fun _ => true) northAndSouth
    publishedAtNorth ?_ ?_ "south" "north" (.inr rfl) (.inl rfl) _).1
  · refine ⟨⟨⟨.inl rfl, rfl⟩, trivial⟩, ⟨⟨.inr rfl, by decide, ?_⟩, ?_⟩,
      ⟨⟨.inr rfl, by decide, ?_⟩, trivial⟩, trivial⟩
    · exact ⟨_, rfl, rfl⟩
    · intro row hrow
      cases hrow
    · exact ⟨_, rfl, rfl⟩
  · rintro left (rfl | rfl) right (rfl | rfl)
    · exact fun _ hmem _ => hmem
    · exact forall_journaled (by decide)
    · exact forall_journaled (by decide)
    · exact fun _ hmem _ => hmem

def crossedPublishes : List (String × MeshCall) :=
  ("north", .publish (latest 'a') ⟨1000, 2000, 2000, 0⟩) ::
    ("south", .publish (latest 'b') ⟨1500, 1500, 1500, 0⟩) ::
    deliveries "north" (latestEntries "south" 'b' ⟨1500, 1⟩ ⟨1500, 2⟩) ++
    deliveries "south" (latestEntries "north" 'a' ⟨2000, 0⟩ ⟨2000, 1⟩)

/-- Everything is applied everywhere, and each site serves what the other published. -/
theorem crossed_publishes_diverge :
    Meets (meshStep twoNodes) (CallPremise (fun _ => true) northAndSouth) crossedPublishes
      (fun _ => {}) ∧
    (∀ left ∈ northAndSouth, ∀ right ∈ northAndSouth,
      ∀ e ∈ journaled (runAll (meshStep twoNodes) crossedPublishes (fun _ => {}) right).journal,
        e.originSite = right →
          e ∈ journaled (runAll (meshStep twoNodes) crossedPublishes (fun _ => {}) left).journal) ∧
    ((runAll (meshStep twoNodes) crossedPublishes (fun _ => {}) "north").hosted.find
        ("npm", "pkg/latest")).map HostedRow.sha256 = some (digestOf 'b') ∧
    ((runAll (meshStep twoNodes) crossedPublishes (fun _ => {}) "south").hosted.find
        ("npm", "pkg/latest")).map HostedRow.sha256 = some (digestOf 'a') := by
  refine ⟨⟨⟨.inl rfl, rfl⟩, ⟨.inr rfl, rfl⟩, ⟨.inl rfl, by decide, ?_⟩, ⟨.inl rfl, by decide, ?_⟩,
    ⟨.inr rfl, by decide, ?_⟩, ⟨.inr rfl, by decide, ?_⟩, trivial⟩, ?_, rfl, rfl⟩
  · exact ⟨_, rfl, rfl⟩
  · exact ⟨_, rfl, rfl⟩
  · exact ⟨_, rfl, rfl⟩
  · exact ⟨_, rfl, rfl⟩
  · rintro left (rfl | rfl) right (rfl | rfl)
    · exact fun _ hmem _ => hmem
    · exact forall_journaled (by decide)
    · exact forall_journaled (by decide)
    · exact fun _ hmem _ => hmem

end FondacoFormal.Convergence
