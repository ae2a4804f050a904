import FondacoFormal.State.Journal

/-!
# The merge statements

The SQL the applier runs against one site's tables, each statement as the
function from the tables before it to the tables after it.
-/

namespace FondacoFormal.Repl

open Library State

def crossSiteConflict : String := "cross_site_conflict"

/-! ## Hosted coordinates -/

/-- `hostedState`. -/
def hostedState (s : SiteState) (feed path : String) : Option HostedRow :=
  s.hosted.find (feed, path)

/-- `isNewerThanStored`: by stamp, equal stamps by the smaller digest. -/
def isNewerThanStored (s : SiteState) (feed path : String) (hlc : HLC)
    (incomingSha storedSha : String) : Bool :=
  match s.hosted.find (feed, path) with
  | none => true
  | some row =>
    let stored := row.metadata.hlc
    stored.before hlc || (stored = hlc && incomingSha < storedSha)

/-- The publishing site: the event's origin, or the value a snapshot carried. -/
def publishingSite (p : ManifestPut) (e : JournalEntry) : String :=
  if p.site = "" then e.originSite else p.site

/-- The row `insertHosted` writes; the event's stamp travels in the metadata. -/
def replicatedRow (p : ManifestPut) (e : JournalEntry) : HostedRow where
  coordinate := p.coord
  sha256 := p.sha256
  size := p.size
  checksums := p.checksums
  metadata := p.metadata.stamp e.hlc
  mutable := p.mutable
  origin := "replication"
  site := publishingSite p e
  publishedBy := p.publisher

/-- `insertHosted`. -/
def insertHosted (p : ManifestPut) (e : JournalEntry) (s : SiteState) : SiteState :=
  { s with hosted := s.hosted.insertNew (p.feed, p.path) (replicatedRow p e) }

/-- `updateHosted`: every column but the coordinate. -/
def updateHosted (p : ManifestPut) (e : JournalEntry) (s : SiteState) : SiteState :=
  { s with hosted := s.hosted.modify (p.feed, p.path) fun row =>
      { replicatedRow p e with coordinate := row.coordinate } }

/-! ## Quarantine -/

/-- `quarantineTx`: block; equal stamps break towards blocked. -/
def quarantineTx (feed coordinate reason detail : String) (hlc : HLC) (s : SiteState) :
    SiteState :=
  let register : QuarantineRow := ⟨detail, true, hlc⟩
  { s with quarantine := s.quarantine.upsert (feed, coordinate, reason) register fun row =>
      if row.hlc ≤ hlc then register else row }

/-- `releaseQuarantineTx`: lift one reason, creating the register if it is not there. -/
def releaseQuarantineTx (feed coordinate reason : String) (hlc : HLC) (s : SiteState) :
    SiteState :=
  let register : QuarantineRow := ⟨"", false, hlc⟩
  { s with quarantine := s.quarantine.upsert (feed, coordinate, reason) register fun row =>
      if row.hlc < hlc then { register with detail := row.detail } else row }

def openConflictCount (s : SiteState) (feed coordinate : String) : Nat :=
  s.conflicts.countP fun c => c.blocks feed coordinate

/-- `syncConflictQuarantineTx`: recompute the derived block of a coordinate. -/
def syncConflictQuarantineTx (feed coordinate : String) (s : SiteState) : SiteState :=
  let count := openConflictCount s feed coordinate
  let key := (feed, coordinate, crossSiteConflict)
  if 0 < count then
    let register : QuarantineRow :=
      ⟨s!"{count} unresolved cross-site conflict(s)", true, ⟨0, 0⟩⟩
    { s with quarantine := s.quarantine.upsert key register fun row =>
        { register with hlc := row.hlc } }
  else
    { s with quarantine := s.quarantine.modify key fun row => { row with active := false } }

/-! ## Resolutions -/

structure Resolution where
  keepSha : String
  size : Int
  checksums : StringMap
  metadata : Metadata
  hlc : HLC
  deriving DecidableEq, Repr

/-- `storedResolution`. -/
def storedResolution (s : SiteState) (feed path : String) : Option Resolution :=
  (s.resolutions.find (feed, path)).map fun row =>
    ⟨row.keepSha, row.size, row.checksums, row.metadata, row.hlc⟩

/-- The decision in `left` is ordered before the one in `right`, by stamp and then digest. -/
def decidedBefore (left : HLC) (leftSha : String) (right : HLC) (rightSha : String) : Bool :=
  left < right || (left = right && leftSha < rightSha)

/-- `recordResolution`: the newest decision of a path wins. -/
def recordResolution (feed path coord : String) (r : Resolution) (operator decidedBy : String)
    (s : SiteState) : SiteState :=
  let fresh : ResolutionRow :=
    ⟨coord, r.keepSha, r.size, r.checksums, r.metadata, operator, decidedBy, r.hlc⟩
  { s with resolutions := s.resolutions.upsert (feed, path) fresh fun row =>
      if decidedBefore row.hlc row.keepSha r.hlc r.keepSha then
        { fresh with coordinate := row.coordinate }
      else row }

/-! ## Conflict records -/

def conflictsOf (pg : Postgres) (s : SiteState) (feed path : String) : List ConflictRow :=
  pg.conflictOrder (s.conflicts.filter fun c => c.onPath feed path)

/-- `blobSize`: a size some coordinate records for the digest. -/
def blobSize (pg : Postgres) (s : SiteState) (sha : String) : Int :=
  (((pg.hostedOrder s.hosted.rows).find? fun row => row.2.sha256 = sha && 0 < row.2.size).map
    fun row => row.2.size).getD 0

def ConflictRow.side? (c : ConflictRow) (sha : String) : Option SideMeta :=
  if c.winnerSha = sha then some c.winnerMeta
  else if c.loserSha = sha then some c.loserMeta
  else none

/-- Recover the size of a side recorded without it, from the row or from any coordinate, by queries
within that of `conflictSide`. -/
def recoverSide (pg : Postgres) (s : SiteState) (feed path sha : String) (recorded : SideMeta) :
    SideMeta :=
  let side := { recorded with sha256 := sha }
  if !pg.nested then side
  else
    let side :=
      if side.size = 0 ∧ side.checksums = [] then
        match hostedState s feed path with
        | some stored =>
          if stored.sha256 = sha then
            { side with size := stored.size, checksums := stored.checksums,
                        metadata := stored.metadata }
          else side
        | none => side
      else side
    if side.size = 0 ∧ 0 < blobSize pg s sha then { side with size := blobSize pg s sha } else side

/-- `conflictSide`: only a digest this site recorded in a conflict can be chosen. -/
def conflictSide (pg : Postgres) (s : SiteState) (feed path sha : String) : Option SideMeta :=
  ((conflictsOf pg s feed path).findSome? fun c => ConflictRow.side? c sha).map
    (recoverSide pg s feed path sha)

/-- `conflictSideSite`: which site published a conflicting digest, empty when unknown. -/
def conflictSideSite (pg : Postgres) (s : SiteState) (feed path sha : String) : String :=
  (((conflictsOf pg s feed path).find? fun c => c.names sha).map fun c =>
    if c.winnerSha = sha then c.winnerSite else c.loserSite).getD ""

def closeConflicts (feed path keepSha : String) (s : SiteState) : SiteState :=
  { s with conflicts := s.conflicts.map fun c =>
      if c.onPath feed path && c.unresolved then { c with resolved := some keepSha } else c }

def resolvedRow (coord : String) (r : Resolution) (site : String) : HostedRow where
  coordinate := coord
  sha256 := r.keepSha
  size := r.size
  checksums := r.checksums
  metadata := r.metadata
  mutable := false
  origin := "replication"
  site := site
  publishedBy := "conflict-resolution"

/-- Point the row at the kept digest; an existing row keeps its site, flag and publisher. -/
def writeResolved (feed path coord : String) (r : Resolution) (site : String) (s : SiteState) :
    SiteState :=
  { s with hosted := s.hosted.upsert (feed, path) (resolvedRow coord r site) fun row =>
      { row with sha256 := r.keepSha, size := r.size, checksums := r.checksums,
                 metadata := r.metadata } }

/-- `applyResolutionTx`. -/
def applyResolutionTx (pg : Postgres) (feed path coord : String) (r : Resolution)
    (decidedBy : String) (s : SiteState) : SiteState :=
  let site := conflictSideSite pg s feed path r.keepSha
  let keptSite := if site = "" then decidedBy else site
  syncConflictQuarantineTx feed coord
    (closeConflicts feed path r.keepSha (writeResolved feed path coord r keptSite s))

/-- `recordResolvedConflictTx`: file a publish that arrived after the decision. -/
def recordResolvedConflictTx (p : ManifestPut) (kept rejected : SideMeta) (rejectedSite : String)
    (s : SiteState) : SiteState :=
  if s.conflicts.any fun c => c.onPath p.feed p.path && c.names rejected.sha256 then s
  else
    { s with conflicts := s.conflicts ++
        [⟨p.feed, p.path, p.coord, kept.sha256, rejected.sha256, "resolved", rejectedSite,
          kept, rejected, some kept.sha256⟩] }

/-- `recordConflictTx`: store both sides of a conflict. -/
def recordConflictTx (p : ManifestPut) (winner loser : SideMeta) (winnerSite loserSite : String)
    (s : SiteState) : SiteState :=
  { s with conflicts := s.conflicts ++
      [⟨p.feed, p.path, p.coord, winner.sha256, loser.sha256, winnerSite, loserSite,
        winner, loser, none⟩] }

/-- `ConflictRecord`: an open conflict as a snapshot carries it. -/
structure ConflictRecord where
  feed : String
  path : String
  coordinate : String
  winnerSha : String
  loserSha : String
  winnerSite : String
  loserSite : String
  winner : SideMeta
  loser : SideMeta
  deriving DecidableEq, Repr

/-- The row an imported conflict becomes; the sides carry the record's digests. -/
def ConflictRecord.row (c : ConflictRecord) : ConflictRow where
  feed := c.feed
  path := c.path
  coordinate := c.coordinate
  winnerSha := c.winnerSha
  loserSha := c.loserSha
  winnerSite := c.winnerSite
  loserSite := c.loserSite
  winnerMeta := { c.winner with sha256 := c.winnerSha }
  loserMeta := { c.loser with sha256 := c.loserSha }

/-- `importConflictTx`: record a conflict learned from a snapshot and recompute the block. -/
def importConflictTx (c : ConflictRecord) (s : SiteState) : SiteState :=
  let known := s.conflicts.any fun row =>
    row.onPath c.feed c.path && row.winnerSha = c.winnerSha && row.loserSha = c.loserSha
  syncConflictQuarantineTx c.feed c.coordinate
    (if known then s else { s with conflicts := s.conflicts ++ [c.row] })

/-- `ApplyQuarantineDecisionTx`. -/
def applyQuarantineDecisionTx (feed coordinate reason detail : String) (active : Bool) (hlc : HLC)
    (s : SiteState) : SiteState :=
  if active then quarantineTx feed coordinate reason detail hlc s
  else releaseQuarantineTx feed coordinate reason hlc s

def Recorded (s : SiteState) (feed path sha : String) : Prop :=
  ∃ c ∈ s.conflicts, c.onPath feed path = true ∧ c.names sha = true

/-! ## Which tables a statement touches -/

theorem syncConflictQuarantineTx_eq (feed coordinate : String) (s : SiteState) :
    syncConflictQuarantineTx feed coordinate s =
      { s with quarantine := (syncConflictQuarantineTx feed coordinate s).quarantine } := by
  unfold syncConflictQuarantineTx
  dsimp only
  split <;> rfl

section Fields

variable (feed path coordinate reason detail : String) (active : Bool) (hlc : HLC) (s : SiteState)

@[simp] theorem syncConflictQuarantineTx_hosted :
    (syncConflictQuarantineTx feed coordinate s).hosted = s.hosted := by
  rw [syncConflictQuarantineTx_eq]

@[simp] theorem syncConflictQuarantineTx_conflicts :
    (syncConflictQuarantineTx feed coordinate s).conflicts = s.conflicts := by
  rw [syncConflictQuarantineTx_eq]

@[simp] theorem syncConflictQuarantineTx_resolutions :
    (syncConflictQuarantineTx feed coordinate s).resolutions = s.resolutions := by
  rw [syncConflictQuarantineTx_eq]

theorem applyQuarantineDecisionTx_eq :
    applyQuarantineDecisionTx feed coordinate reason detail active hlc s =
      { s with quarantine :=
          (applyQuarantineDecisionTx feed coordinate reason detail active hlc s).quarantine } := by
  unfold applyQuarantineDecisionTx
  split <;> rfl

variable (pg : Postgres) (coord : String) (r : Resolution) (decidedBy : String)

@[simp] theorem applyResolutionTx_hosted :
    (applyResolutionTx pg feed path coord r decidedBy s).hosted =
      (writeResolved feed path coord r
        (if conflictSideSite pg s feed path r.keepSha = "" then decidedBy
          else conflictSideSite pg s feed path r.keepSha) s).hosted := by
  simp [applyResolutionTx, closeConflicts]

@[simp] theorem applyResolutionTx_conflicts :
    (applyResolutionTx pg feed path coord r decidedBy s).conflicts =
      (closeConflicts feed path r.keepSha s).conflicts := by
  simp [applyResolutionTx, closeConflicts, writeResolved]

@[simp] theorem applyResolutionTx_tokens :
    (applyResolutionTx pg feed path coord r decidedBy s).tokens = s.tokens := by
  unfold applyResolutionTx
  rw [syncConflictQuarantineTx_eq]
  rfl

@[simp] theorem applyResolutionTx_resolutions :
    (applyResolutionTx pg feed path coord r decidedBy s).resolutions = s.resolutions := by
  simp [applyResolutionTx, closeConflicts, writeResolved]

end Fields

/-! ## What a statement leaves under a key -/

variable {s : SiteState}

theorem updateHosted_find_self {p : ManifestPut} {existing : HostedRow}
    (present : hostedState s p.feed p.path = some existing) (e : JournalEntry) :
    (updateHosted p e s).hosted.find (p.feed, p.path) =
      some { replicatedRow p e with coordinate := existing.coordinate } := by
  unfold hostedState at present
  simp [updateHosted, present]

theorem writeResolved_find_self (feed path coord : String) (r : Resolution) (site : String)
    (s : SiteState) : ∃ row, (writeResolved feed path coord r site s).hosted.find (feed, path) =
      some row ∧ row.sha256 = r.keepSha := by
  simp only [writeResolved, Table.find_upsert_self]
  cases s.hosted.find (feed, path) <;> exact ⟨_, rfl, rfl⟩

variable {feed path : String} {key : PathKey}

theorem writeResolved_find_of_ne (coord : String) (r : Resolution) (site : String) (s : SiteState)
    (hne : key ≠ (feed, path)) :
    (writeResolved feed path coord r site s).hosted.find key = s.hosted.find key :=
  Table.find_upsert_of_ne _ _ _ hne

variable {keepSha : String} {c : ConflictRow}

theorem mem_closeConflicts :
    c ∈ (closeConflicts feed path keepSha s).conflicts ↔ ∃ row ∈ s.conflicts,
      (if row.onPath feed path && row.unresolved then { row with resolved := some keepSha }
        else row) = c := by
  unfold closeConflicts
  exact List.mem_map

theorem closeConflicts_closed (hmem : c ∈ (closeConflicts feed path keepSha s).conflicts)
    (hpath : c.onPath feed path = true) : c.unresolved = false := by
  obtain ⟨row, -, rfl⟩ := mem_closeConflicts.mp hmem
  split_ifs at hpath ⊢ with hopen
  · rfl
  · simpa [hpath] using hopen

theorem closeConflicts_elsewhere (hpath : c.onPath feed path = false) :
    c ∈ (closeConflicts feed path keepSha s).conflicts ↔ c ∈ s.conflicts := by
  rw [mem_closeConflicts]
  constructor
  · rintro ⟨row, hmem, rfl⟩
    split_ifs at hpath ⊢ with hclosed
    · exact absurd (Bool.and_eq_true_iff.mp hclosed).1 (Bool.eq_false_iff.mp hpath)
    · exact hmem
  · intro hmem
    exact ⟨c, hmem, by simp [hpath]⟩

theorem closeConflicts_origin (hmem : c ∈ (closeConflicts feed path keepSha s).conflicts) :
    ∃ row ∈ s.conflicts,
      c.feed = row.feed ∧ c.path = row.path ∧ (∀ sha, c.names sha = row.names sha) ∧
      c.coordinate = row.coordinate := by
  obtain ⟨row, hrow, rfl⟩ := mem_closeConflicts.mp hmem
  refine ⟨row, hrow, ?_⟩
  split <;> exact ⟨rfl, rfl, fun _ => rfl, rfl⟩

variable {sha : String}

theorem closeConflicts_recorded {feed path f p : String} :
    Recorded (closeConflicts feed path keepSha s) f p sha ↔ Recorded s f p sha := by
  constructor
  · rintro ⟨c, hmem, hpath, hname⟩
    obtain ⟨row, hrow, hfeed, hpath', hnames, -⟩ := closeConflicts_origin hmem
    rw [ConflictRow.onPath_iff, hfeed, hpath'] at hpath
    exact ⟨row, hrow, ConflictRow.onPath_iff.mpr hpath, by rw [← hnames]; exact hname⟩
  · rintro ⟨row, hrow, hpath, hname⟩
    refine ⟨_, mem_closeConflicts.mpr ⟨row, hrow, rfl⟩, ?_⟩
    split <;> exact ⟨hpath, hname⟩

theorem recorded_congr {s t : SiteState} (hconflicts : t.conflicts = s.conflicts)
    (feed path sha : String) : Recorded t feed path sha ↔ Recorded s feed path sha := by
  unfold Recorded
  rw [hconflicts]

theorem closeConflicts_mem (hmem : c ∈ (closeConflicts feed path keepSha s).conflicts) :
    c.unresolved = false ∨ c ∈ s.conflicts := by
  obtain ⟨row, hold, rfl⟩ := mem_closeConflicts.mp hmem
  split
  · exact .inl rfl
  · exact .inr hold

theorem storedResolution_congr {s t : SiteState} (hresolutions : t.resolutions = s.resolutions)
    (f p : String) : storedResolution t f p = storedResolution s f p := by
  unfold storedResolution
  rw [hresolutions]

theorem storedResolution_recordResolution_of_ne (coord : String) (r : Resolution)
    (operator decidedBy : String) (s : SiteState) (hne : key ≠ (feed, path)) :
    storedResolution (recordResolution feed path coord r operator decidedBy s) key.1 key.2 =
      storedResolution s key.1 key.2 := by
  unfold storedResolution recordResolution
  exact congrArg _ (Table.find_upsert_of_ne _ _ _ hne)

theorem storedResolution_recordResolution_kept {stored r : Resolution}
    (coord operator decidedBy : String) (hstored : storedResolution s feed path = some stored)
    (hlater : decidedBefore stored.hlc stored.keepSha r.hlc r.keepSha = false) :
    storedResolution (recordResolution feed path coord r operator decidedBy s) feed path =
      some stored := by
  unfold storedResolution at hstored ⊢
  obtain ⟨row, hrow, rfl⟩ := Option.map_eq_some_iff.mp hstored
  simp only [recordResolution, Table.find_upsert_self, hrow]
  simp only [Option.map_some, Option.getD_some, hlater, Bool.false_eq_true, if_false]

theorem storedResolution_recordResolution_new {r : Resolution} (coord operator decidedBy : String)
    (hbefore : ∀ stored, storedResolution s feed path = some stored →
      decidedBefore stored.hlc stored.keepSha r.hlc r.keepSha = true) :
    storedResolution (recordResolution feed path coord r operator decidedBy s) feed path =
      some r := by
  unfold storedResolution at hbefore ⊢
  simp only [recordResolution, Table.find_upsert_self]
  cases hrow : s.resolutions.find (feed, path) with
  | none => rfl
  | some row =>
    have hlater := hbefore _ (by rw [hrow]; rfl)
    simp only [Option.map_some, Option.getD_some]
    rw [if_pos hlater]

/-- The decision stored before stays unless it is ordered before the recorded one. -/
theorem storedResolution_recordResolution_cases (feed path coord operator decidedBy : String)
    (r : Resolution) (s : SiteState) :
    (storedResolution (recordResolution feed path coord r operator decidedBy s) feed path = some r ∧
      ∀ stored, storedResolution s feed path = some stored →
        decidedBefore stored.hlc stored.keepSha r.hlc r.keepSha = true) ∨
    ∃ stored, storedResolution s feed path = some stored ∧
      decidedBefore stored.hlc stored.keepSha r.hlc r.keepSha = false ∧
      storedResolution (recordResolution feed path coord r operator decidedBy s) feed path =
        some stored := by
  by_cases hbefore : ∀ stored, storedResolution s feed path = some stored →
      decidedBefore stored.hlc stored.keepSha r.hlc r.keepSha = true
  · exact .inl ⟨storedResolution_recordResolution_new _ _ _ hbefore, hbefore⟩
  · push Not at hbefore
    obtain ⟨stored, hstored, hkept⟩ := hbefore
    have hkept := Bool.eq_false_iff.mpr hkept
    exact .inr ⟨stored, hstored, hkept,
      storedResolution_recordResolution_kept _ _ _ hstored hkept⟩

theorem conflictSide_isSome {pg : Postgres} :
    (conflictSide pg s feed path sha).isSome = true ↔ Recorded s feed path sha := by
  unfold conflictSide Recorded
  have hnamed : ∀ c : ConflictRow, (ConflictRow.side? c sha).isSome = true ↔
      c.names sha = true := by
    intro c
    unfold ConflictRow.side?
    rw [ConflictRow.names_iff]
    split_ifs <;> simp_all
  rw [Option.isSome_map, List.findSome?_isSome_iff]
  unfold conflictsOf
  constructor
  · rintro ⟨c, hmem, hside⟩
    have hfilter := List.mem_filter.mp ((pg.conflictOrder_perm _).mem_iff.mp hmem)
    exact ⟨c, hfilter.1, hfilter.2, (hnamed c).mp hside⟩
  · rintro ⟨c, hmem, hpath, hname⟩
    refine ⟨c, (pg.conflictOrder_perm _).mem_iff.mpr ?_, (hnamed c).mpr hname⟩
    exact List.mem_filter.mpr ⟨hmem, hpath⟩

theorem conflictSide_sha {pg : Postgres} {side : SideMeta}
    (hside : conflictSide pg s feed path sha = some side) : side.sha256 = sha := by
  unfold conflictSide at hside
  obtain ⟨recorded, -, hside⟩ := Option.map_eq_some_iff.mp hside
  rw [← hside]
  unfold recoverSide
  dsimp only
  split_ifs <;> (try split) <;> (try split_ifs) <;> rfl

end FondacoFormal.Repl
