import TaskContract.Text.CodePoint

/-!
# Points in time

A point in time in the form in which it is stored: in UTC, down to the millisecond.
-/

namespace TaskContract

/-- A point in time in UTC. -/
structure Timestamp where
  year : Nat
  month : Nat
  day : Nat
  hour : Nat
  minute : Nat
  second : Nat
  microsecond : Nat

namespace Timestamp

/-- The year, month and day that come the given number of days after the first of January 1970. The
days are counted from a first of March in cycles of four hundred years, so that a leap day is the
last of its year. -/
def dateOfDays (days : Nat) : Nat × Nat × Nat :=
  let shifted := days + 719468
  let cycle := shifted / 146097
  let inCycle := shifted % 146097
  let yearInCycle := (inCycle - inCycle / 1460 + inCycle / 36524 - inCycle / 146096) / 365
  let inYear := inCycle - (365 * yearInCycle + yearInCycle / 4 - yearInCycle / 100)
  let fromMarch := (5 * inYear + 2) / 153
  let day := inYear - (153 * fromMarch + 2) / 5 + 1
  let month := if fromMarch < 10 then fromMarch + 3 else fromMarch - 9
  let year := cycle * 400 + yearInCycle + if month ≤ 2 then 1 else 0
  (year, month, day)

/-- The point in time that comes the given number of seconds after the beginning of 1970. -/
def ofSeconds (seconds microsecond : Nat) : Timestamp :=
  let (year, month, day) := dateOfDays (seconds / 86400)
  let inDay := seconds % 86400
  { year, month, day, hour := inDay / 3600, minute := inDay / 60 % 60, second := inDay % 60
    microsecond }

def padded (width n : Nat) : Text :=
  let digits := Text.ofNat n
  List.replicate (width - digits.length) (CodePoint.ofChar '0') ++ digits

/-- The date and the time of day. What is less than a millisecond is left out. -/
def text (t : Timestamp) : Text :=
  padded 4 t.year ++ Text.ofString "-" ++ padded 2 t.month ++ Text.ofString "-" ++ padded 2 t.day
    ++ Text.ofString "T" ++ padded 2 t.hour ++ Text.ofString ":" ++ padded 2 t.minute
    ++ Text.ofString ":" ++ padded 2 t.second ++ Text.ofString "."
    ++ padded 3 (t.microsecond / 1000) ++ Text.ofString "Z"

end Timestamp

end TaskContract
