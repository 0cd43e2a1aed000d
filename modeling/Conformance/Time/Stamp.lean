set_option autoImplicit false

/-! # Points in time

A point in time is a number of nanoseconds since the beginning of the year 1970. It is shown as the
date and the time of day, to the microsecond: `1970-01-01T00:00:00.000000Z` is the first.
-/

namespace Conformance

namespace Stamp

def padded (places n : Nat) : String :=
  let digits := (toString n).toList
  String.ofList (List.replicate (places - digits.length) '0' ++ digits)

/-- The year, the month and the day that come so many days after the first of January 1970. -/
def date (days : Nat) : Nat × Nat × Nat :=
  -- A leap day ends its year if years begin in March. There are 146097 days in 400 such years, and
  -- 719468 in those before 1970.
  let cycle := (days + 719468) / 146097
  let inCycle := (days + 719468) % 146097
  let year := (inCycle - inCycle / 1460 + inCycle / 36524 - inCycle / 146096) / 365
  let inYear := inCycle - (365 * year + year / 4 - year / 100)
  -- Five months in a row have 153 days.
  let month := (5 * inYear + 2) / 153
  let day := inYear - (153 * month + 2) / 5 + 1
  if month < 10 then (400 * cycle + year, month + 3, day)
  else (400 * cycle + year + 1, month - 9, day)

/-- How a date is shown, and the time of day of so many microseconds. -/
def shown (date : Nat × Nat × Nat) (micros : Nat) : String :=
  let seconds := micros / 1000000
  padded 4 date.1 ++ "-" ++ padded 2 date.2.1 ++ "-" ++ padded 2 date.2.2 ++ "T" ++
    padded 2 (seconds / 3600 % 24) ++ ":" ++ padded 2 (seconds / 60 % 60) ++ ":" ++
    padded 2 (seconds % 60) ++ "." ++ padded 6 (micros % 1000000) ++ "Z"

def text (nanos : Nat) : String := shown (date (nanos / 1000 / 1000000 / 86400)) (nanos / 1000)

end Stamp

end Conformance
