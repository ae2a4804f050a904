import Mathlib.Order.Lattice

/-!
# Calendar texts

The texts of a moment, given in seconds since 1970 in UTC.  Years are counted from the
first of March, so that a leap day is the last day of its year.
-/

namespace FondacoFormal.Library.Calendar

def day (seconds : Int) : Int :=
  seconds / 86400

def date (seconds : Int) : Int × Int × Int :=
  let shifted := day seconds + 719468
  let era := shifted / 146097
  let ofEra := shifted % 146097
  let yearOfEra := (ofEra - ofEra / 1460 + ofEra / 36524 - ofEra / 146096) / 365
  let ofYear := ofEra - (365 * yearOfEra + yearOfEra / 4 - yearOfEra / 100)
  let marchMonth := (5 * ofYear + 2) / 153
  let month := if marchMonth < 10 then marchMonth + 3 else marchMonth - 9
  let year := yearOfEra + era * 400 + (if month ≤ 2 then 1 else 0)
  (year, month, ofYear - (153 * marchMonth + 2) / 5 + 1)

def padded (width : Nat) (n : Int) : String :=
  let digits := (toString n.toNat).toList
  String.ofList (List.replicate (width - digits.length) '0' ++ digits)

def clock (seconds : Int) : Int × Int × Int :=
  let ofDay := seconds % 86400
  (ofDay / 3600, ofDay / 60 % 60, ofDay % 60)

/-- `Format(time.RFC3339)`. -/
def rfc3339 (seconds : Int) : String :=
  let (year, month, dayOfMonth) := date seconds
  let (hour, minute, second) := clock seconds
  padded 4 year ++ "-" ++ padded 2 month ++ "-" ++ padded 2 dayOfMonth ++ "T" ++ padded 2 hour ++
    ":" ++ padded 2 minute ++ ":" ++ padded 2 second ++ "Z"

def zeroTime : Int :=
  -62135596800

example : rfc3339 zeroTime = "0001-01-01T00:00:00Z" := by decide +kernel

end FondacoFormal.Library.Calendar
