import FondacoFormal.Repl.Site

/-!
# Following a peer's journal

What `catchUp` does with one page of a peer's journal: apply it, then move the
cursor to the last entry of the page.
-/

namespace FondacoFormal.Repl

open State

/-- The sequence number durability stops at, if an entry's bytes are not here. -/
def missingBefore (s : SiteState) (e : JournalEntry) (durable : Int) : Int :=
  match e.event with
  | .manifestPut (.ok p) =>
    if p.sha256 ≠ "" ∧ p.sha256 ∉ s.blobs ∧ e.originSeq - 1 < durable then e.originSeq - 1
    else durable
  | _ => durable

/-- `durableThrough`: the highest sequence number whose bytes are all here. -/
def durableThrough (s : SiteState) (entries : List JournalEntry) (fallback : Int) : Int :=
  max 0 (entries.foldl (fun durable e => missingBefore s e durable) fallback)

def movePast (peer uuid : String) (entries : List JournalEntry) (s : SiteState) : SiteState :=
  match entries.getLast? with
  | none => s
  | some last =>
    setCursor s peer peer ⟨last.originSeq, durableThrough s entries last.originSeq, uuid⟩

/-- One page in `catchUp`: a batch that fails leaves the cursor where it was. -/
def applyPage (a : Applier) (peer uuid : String) (entries : List JournalEntry) (s : SiteState) :
    Outcome :=
  (applyBatch a peer entries s).andThen fun applied =>
    { state := movePast peer uuid entries applied }

end FondacoFormal.Repl
