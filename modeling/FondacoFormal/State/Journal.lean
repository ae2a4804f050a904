import FondacoFormal.State.Tables
import Mathlib.Data.List.Sort
import Mathlib.Data.List.MinMax

/-!
# Journal, parked events and cursors

The statements on `repl_journal`, `repl_parked` and `repl_cursors`.
-/

namespace FondacoFormal.State

open Library Library.Fallible

structure Postgres where
  /-- The payload a `JSONB NOT NULL` column gives back, or `none` when it refuses it. -/
  jsonb : Event → Option Event
  /-- Row order of an unordered query on `publish_conflicts`. -/
  conflictOrder : List ConflictRow → List ConflictRow
  conflictOrder_perm : ∀ rows, (conflictOrder rows).Perm rows
  /-- Row order of an unordered query on `hosted_manifests`. -/
  hostedOrder : List (PathKey × HostedRow) → List (PathKey × HostedRow)
  hostedOrder_perm : ∀ rows, (hostedOrder rows).Perm rows
  /-- A query is answered while the rows of another are open; pgx calls the connection busy. -/
  nested : Bool
  textLe : String → String → Bool
  textLe_total : ∀ a b, textLe a b = true ∨ textLe b a = true
  textLe_trans : ∀ a b c, textLe a b = true → textLe b c = true → textLe a c = true
  textLe_antisymm : ∀ a b, textLe a b = true → textLe b a = true → a = b
  /-- The transaction that applies this entry stays within the storage limits. -/
  admits : SiteState → JournalEntry → Bool

/-- A server that takes every payload unchanged, lists rows in insertion order and compares
texts by their characters. -/
def Postgres.plain : Postgres where
  jsonb := some
  conflictOrder := id
  conflictOrder_perm := List.Perm.refl
  hostedOrder := id
  hostedOrder_perm := List.Perm.refl
  nested := false
  textLe a b := a ≤ b
  textLe_total a b := by simpa using String.le_total a b
  textLe_trans a b c hab hbc := by
    simpa using String.le_trans (of_decide_eq_true hab) (of_decide_eq_true hbc)
  textLe_antisymm a b hab hba :=
    String.le_antisymm (of_decide_eq_true hab) (of_decide_eq_true hba)
  admits := fun _ _ => true

/-- The kind is valid `TEXT`, the schema version fits `INT` and the payload fits `JSONB`. -/
def Postgres.storedEvent (pg : Postgres) (e : JournalEntry) : Option Event :=
  if '\x00' ∈ e.event.kind.toList then none
  else if -2 ^ 31 ≤ e.schemaVersion ∧ e.schemaVersion < 2 ^ 31 then pg.jsonb e.event
  else none

/-! ## The journal -/

def JournalRow.entry (key : String × Int) (row : JournalRow) : JournalEntry :=
  ⟨key.1, key.2, row.event, row.hlc, row.schemaVersion⟩

def journaled (journal : Table (String × Int) JournalRow) : Set JournalEntry :=
  {e | ∃ row, journal.find e.key = some row ∧ row.entry e.key = e}

/-- `AppendJournal`: allocate stamp and sequence number and insert, in one statement. -/
def appendJournal (pg : Postgres) (site : String) (event : Event) (nowMs startedAt : Int)
    (s : SiteState) : Except SqlCause (SiteState × JournalEntry) := do
  let (clock, seq, h) ← replHlcNext nowMs s.clock
  match pg.jsonb event with
  | none => .error .invalidText
  | some stored =>
    match s.journal.find (site, seq) with
    | some _ => .error .uniqueViolation
    | none =>
      let row : JournalRow := ⟨stored, h, 1, startedAt⟩
      .ok ({ s with clock := clock, journal := s.journal.put (site, seq) row },
        row.entry (site, seq))

/-- `ApplyForeignJournal`: move the clock, then record the entry unless it is there. -/
def applyForeignJournal (pg : Postgres) (startedAt : Int) (e : JournalEntry) (s : SiteState) :
    Except SqlCause (SiteState × Bool) := do
  let clock ← replHlcRecv e.hlc s.clock
  match pg.storedEvent e with
  | none => .error .invalidText
  | some stored =>
    let row : JournalRow := ⟨stored, e.hlc, e.schemaVersion, startedAt⟩
    .ok ({ s with clock := clock, journal := s.journal.insertNew e.key row },
      (s.journal.find e.key).isNone)

def retainedSeqs (journal : Table (String × Int) JournalRow) (origin : String) : List Int :=
  (journal.rows.filter fun row => row.1.1 = origin).map fun row => row.1.2

/-- `JournalHead`: newest and oldest retained sequence number, zero when there is none. -/
def journalHead (journal : Table (String × Int) JournalRow) (origin : String) : Int × Int :=
  ((retainedSeqs journal origin).max?.getD 0, (retainedSeqs journal origin).min?.getD 0)

/-- `ReadJournal`: a page of entries after a sequence number, oldest first. -/
def readJournal (journal : Table (String × Int) JournalRow) (origin : String) (after : Int)
    (limit : Int) : List JournalEntry :=
  let size : Int := if limit ≤ 0 ∨ limit > 1000 then 200 else limit
  let found := (journal.rows.filter fun row => row.1.1 = origin && after < row.1.2).map
    fun row => row.2.entry row.1
  (found.insertionSort fun left right => left.originSeq ≤ right.originSeq).take size.toNat

/-- `PruneJournal`: drop an origin's entries below a watermark, keeping the newest entry. -/
def pruneJournal (journal : Table (String × Int) JournalRow) (origin : String) (below : Int) :
    Table (String × Int) JournalRow :=
  journal.keep fun key _ =>
    !(key.1 = origin && key.2 < below && key.2 < (journalHead journal key.1).1)

/-- `PruneJournalOlderThan`: drop entries created before the cutoff, keeping each newest one. -/
def pruneJournalOlderThan (journal : Table (String × Int) JournalRow) (origin : String)
    (cutoff : Int) : Table (String × Int) JournalRow :=
  journal.keep fun key row =>
    !((origin = "" || key.1 = origin) && row.createdAt < cutoff &&
      key.2 < (journalHead journal key.1).1)

/-! ## Parked events -/

def ParkedRow.hasKey (row : ParkedRow) (key : String × Int) : Bool :=
  row.entry.key = key

/--
`ParkEvent`: park an event, or note the new reason if it is parked already.  A
reason that is not valid text is `none`.
-/
def parkEvent (pg : Postgres) (e : JournalEntry) (reason : Option String) (s : SiteState) :
    Except SqlCause SiteState :=
  match pg.storedEvent e, reason with
  | some stored, some text =>
    if s.parked.any fun row => row.hasKey e.key then
      .ok { s with parked := s.parked.map fun row =>
        if row.hasKey e.key then { row with reason := text, retries := row.retries + 1 }
        else row }
    else
      .ok { s with parked := s.parked ++ [⟨{ e with event := stored }, text, 0⟩] }
  | _, _ => .error .invalidText

/-- `parkedEvents`, oldest first; an empty origin lists every origin. -/
def parkedEvents (s : SiteState) (origin : String) (limit : Int) : List ParkedRow :=
  let size : Int := if limit ≤ 0 then 100 else limit
  (s.parked.filter fun row => origin = "" || row.entry.originSite = origin).take size.toNat

theorem parkedEvents_of_few {s : SiteState} {origin : String} (hname : origin ≠ "")
    (hfew : (s.parked.filter fun row => row.entry.originSite = origin).length ≤ 100) :
    parkedEvents s origin 100 = s.parked.filter fun row => row.entry.originSite = origin := by
  unfold parkedEvents
  simp only [hname, decide_false, Bool.false_or]
  exact List.take_of_length_le hfew

/-- `UnparkEvent`. -/
def unparkEvent (s : SiteState) (key : String × Int) : SiteState :=
  { s with parked := s.parked.filter fun row => !row.hasKey key }

/-! ## Cursors -/

/-- `GetCursor`, zeroes when the stream is new. -/
def getCursor (s : SiteState) (peer origin : String) : CursorRow :=
  (s.cursors.find (peer, origin)).getD ⟨0, 0, ""⟩

/-- `SetCursorTx`. -/
def setCursor (s : SiteState) (peer origin : String) (c : CursorRow) : SiteState :=
  { s with cursors := s.cursors.upsert (peer, origin) c fun stored =>
      ⟨c.appliedSeq, min c.durableSeq c.appliedSeq,
        if c.originUuid = "" then stored.originUuid else c.originUuid⟩ }

/-- `MarkPeerPollOK` on one stream: the first incarnation seen is the one that stays. -/
def markPeerPollOk (s : SiteState) (peer origin uuid : String) : SiteState :=
  { s with cursors := s.cursors.upsert (peer, origin) ⟨0, 0, uuid⟩ fun stored =>
      { stored with originUuid := if stored.originUuid = "" then uuid else stored.originUuid } }

/-- `RecordPeerAck`: how far a peer says it has read an origin's journal. -/
def recordPeerAck (s : SiteState) (peer origin : String) (seq : Int) : SiteState :=
  if peer = "" || peer = "unknown" then s
  else { s with cursors := s.cursors.upsert (peer, origin) ⟨seq, seq, ""⟩ fun stored =>
      { stored with
        appliedSeq := max stored.appliedSeq seq
        durableSeq := max stored.durableSeq seq } }

/-- `MinCursorAcrossPeers`: the least acknowledgement, once every peer has sent one. -/
def minCursorAcrossPeers (s : SiteState) (origin : String) (peers : List String) : Option Int :=
  let found := s.cursors.rows.filter fun row => row.1.2 = origin && row.1.1 ∈ peers
  if peers.isEmpty || found.length < peers.length then none
  else (found.map fun row => row.2.durableSeq).min?

/-- `ForgetOriginJournal`: the entries and the parked events of an origin are dropped. -/
def forgetOriginJournal (s : SiteState) (origin : String) : SiteState :=
  { s with
    journal := s.journal.keep fun key _ => key.1 ≠ origin
    parked := s.parked.filter fun row => row.entry.originSite ≠ origin }

/-! ## What the statements do -/

variable {pg : Postgres} {startedAt : Int} {e : JournalEntry} {s next : SiteState}

theorem applyForeignJournal_ok {fresh : Bool}
    (ran : applyForeignJournal pg startedAt e s = .ok (next, fresh)) :
    ∃ clock stored, replHlcRecv e.hlc s.clock = .ok clock ∧ pg.storedEvent e = some stored ∧
      next = { s with
        clock := clock
        journal := s.journal.insertNew e.key ⟨stored, e.hlc, e.schemaVersion, startedAt⟩ } ∧
      fresh = (s.journal.find e.key).isNone := by
  unfold applyForeignJournal at ran
  obtain ⟨clock, hclock, ran⟩ := bind_eq_ok.mp ran
  cases hstored : pg.storedEvent e with
  | none =>
    rw [hstored] at ran
    cases ran
  | some stored =>
    rw [hstored] at ran
    cases ran
    exact ⟨clock, stored, hclock, rfl, rfl, rfl⟩

theorem applyForeignJournal_eq_ok {clock : HlcState} {stored : Event}
    (hclock : replHlcRecv e.hlc s.clock = .ok clock) (hstored : pg.storedEvent e = some stored) :
    applyForeignJournal pg startedAt e s = .ok
      ({ s with
        clock := clock
        journal := s.journal.insertNew e.key ⟨stored, e.hlc, e.schemaVersion, startedAt⟩ },
        (s.journal.find e.key).isNone) := by
  unfold applyForeignJournal
  rw [hclock, hstored]
  rfl

variable {reason : Option String}

theorem storedEvent_jsonb {stored : Event} (hstored : pg.storedEvent e = some stored) :
    pg.jsonb e.event = some stored := by
  unfold Postgres.storedEvent at hstored
  split at hstored
  · cases hstored
  · split at hstored
    · exact hstored
    · cases hstored

section

variable (ran : parkEvent pg e reason s = .ok next)

include ran

theorem parkEvent_ok : ∃ parked, next = { s with parked := parked } := by
  unfold parkEvent at ran
  split at ran
  · split at ran
    · cases ran
      exact ⟨_, rfl⟩
    · cases ran
      exact ⟨_, rfl⟩
  · cases ran

theorem parkEvent_keeps {row : ParkedRow} (hmem : row ∈ s.parked) :
    ∃ kept ∈ next.parked, kept.entry = row.entry := by
  unfold parkEvent at ran
  split at ran
  · split at ran
    · cases ran
      refine ⟨_, List.mem_map_of_mem hmem, ?_⟩
      split <;> rfl
    · cases ran
      exact ⟨row, List.mem_append_left _ hmem, rfl⟩
  · cases ran

theorem parkEvent_mem {row : ParkedRow} (hmem : row ∈ next.parked) :
    (∃ old ∈ s.parked, old.entry = row.entry) ∨
      ∃ stored, pg.jsonb e.event = some stored ∧ row.entry = { e with event := stored } := by
  unfold parkEvent at ran
  split at ran
  · rename_i _ stored text hstored
    split at ran
    · cases ran
      obtain ⟨old, hold, hrow⟩ := List.mem_map.mp hmem
      refine .inl ⟨old, hold, ?_⟩
      rw [← hrow]
      split <;> rfl
    · cases ran
      rcases List.mem_append.mp hmem with hold | hnew
      · exact .inl ⟨row, hold, rfl⟩
      · rw [List.mem_singleton.mp hnew]
        exact .inr ⟨stored, storedEvent_jsonb hstored, rfl⟩
  · cases ran

theorem parkEvent_parked : ∃ row ∈ next.parked, row.entry.key = e.key := by
  have hran := ran
  unfold parkEvent at ran
  split at ran
  · split at ran
    · rename_i hany
      obtain ⟨row, hmem, hkey⟩ := List.any_eq_true.mp hany
      obtain ⟨kept, hkept, hsame⟩ := parkEvent_keeps hran hmem
      refine ⟨kept, hkept, ?_⟩
      rw [hsame]
      exact of_decide_eq_true hkey
    · cases ran
      exact ⟨_, List.mem_append_right _ (List.mem_singleton_self _), rfl⟩
  · cases ran

end

theorem appendJournal_ok {site : String} {event : Event} {nowMs : Int}
    (ran : appendJournal pg site event nowMs startedAt s = .ok (next, e)) :
    ∃ clock seq stored, replHlcNext nowMs s.clock = .ok (clock, seq, e.hlc) ∧
      pg.jsonb event = some stored ∧ s.journal.find (site, seq) = none ∧
      e = ⟨site, seq, stored, e.hlc, 1⟩ ∧
      next = { s with
        clock := clock
        journal := s.journal.put (site, seq) ⟨stored, e.hlc, 1, startedAt⟩ } := by
  unfold appendJournal at ran
  obtain ⟨⟨clock, seq, h⟩, hclock, ran⟩ := bind_eq_ok.mp ran
  cases hstored : pg.jsonb event with
  | none =>
    rw [hstored] at ran
    cases ran
  | some stored =>
    cases hfind : s.journal.find (site, seq) with
    | some row =>
      simp only [hstored, hfind] at ran
      cases ran
    | none =>
      simp only [hstored, hfind] at ran
      cases ran
      exact ⟨clock, seq, stored, hclock, rfl, hfind, rfl, rfl⟩

variable {journal : Table (String × Int) JournalRow}

theorem journaled_put {key : String × Int} (hfresh : journal.find key = none) (row : JournalRow) :
    journaled (journal.put key row) = insert (row.entry key) (journaled journal) := by
  ext e
  constructor
  · rintro ⟨found, hfind, hentry⟩
    by_cases heq : e.key = key
    · rw [heq, Table.find_put_self] at hfind
      cases hfind
      rw [heq] at hentry
      exact .inl hentry.symm
    · rw [Table.find_put_of_ne _ _ heq] at hfind
      exact .inr ⟨found, hfind, hentry⟩
  · rintro (rfl | ⟨found, hfind, hentry⟩)
    · exact ⟨row, Table.find_put_self _ _ _, rfl⟩
    · refine ⟨found, ?_, hentry⟩
      rw [Table.find_put_of_ne _ _ ?_]
      · exact hfind
      · intro heq
        rw [heq, hfresh] at hfind
        cases hfind

theorem forall_journaled {P : JournalEntry → Prop}
    (hrows : ∀ row ∈ journal.rows, P (row.2.entry row.1)) : ∀ e ∈ journaled journal, P e := by
  rintro e ⟨row, hfind, hentry⟩
  rw [← hentry]
  exact hrows (e.key, row) ((journal.mem_rows_iff e.key row).mpr hfind)

instance (journal : Table (String × Int) JournalRow) (e : JournalEntry) :
    Decidable (e ∈ journaled journal) :=
  decidable_of_iff (∃ row ∈ journal.find e.key, row.entry e.key = e) Iff.rfl

theorem journaled_unique {left right : JournalEntry} (hleft : left ∈ journaled journal)
    (hright : right ∈ journaled journal) (hkey : left.key = right.key) : left = right := by
  obtain ⟨row, hrow, hentry⟩ := hleft
  obtain ⟨row', hrow', hentry'⟩ := hright
  rw [hkey, hrow'] at hrow
  cases hrow
  rw [← hentry, ← hentry', hkey]

structure Appended (pg : Postgres) (site : String) (event : Event) (s t : SiteState)
    (e : JournalEntry) : Prop where
  origin : e.originSite = site
  event : pg.jsonb event = some e.event
  later : s.clock.stamp < e.hlc
  clock : t.clock.stamp = e.hlc
  fresh : s.journal.find e.key = none
  journal : journaled t.journal = insert e (journaled s.journal)

theorem appendJournal_appended {site : String} {event : Event} {nowMs : Int}
    (ran : appendJournal pg site event nowMs startedAt s = .ok (next, e)) :
    Appended pg site event s next e := by
  obtain ⟨clock, seq, stored, hclock, hstored, hfresh, hentry, hnext⟩ := appendJournal_ok ran
  obtain ⟨hstamp, hlater, -⟩ := replHlcNext_ok hclock
  subst hnext
  have hjournal := journaled_put hfresh ⟨stored, e.hlc, 1, startedAt⟩
  rw [show JournalRow.entry (site, seq) ⟨stored, e.hlc, 1, startedAt⟩ = e from hentry.symm]
    at hjournal
  refine ⟨by rw [hentry], ?_, ?_, hstamp.symm, ?_, hjournal⟩
  · rw [hentry]
    exact hstored
  · rw [hstamp]
    exact hlater
  · rw [hentry]
    exact hfresh

end FondacoFormal.State
