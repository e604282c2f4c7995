/-!
# Timestamps

A moment is counted in seconds from the beginning of 1970, and written as date and time of day in
universal time.  Years are counted from March, so that the leap day ends the year.
-/

namespace Loadout.Timestamp

/-- A number in decimal digits, with zeros in front up to a width. -/
def padded (width n : Nat) : String :=
  let digits := toString n
  String.ofList (List.replicate (width - digits.length) '0') ++ digits

def daysPerEra : Nat := 146097

/-- Days from the first of March of the year 0 to the beginning of 1970. -/
def daysBefore1970 : Nat := 719468

/-- The year, month and day of a day counted from the beginning of 1970. -/
def civil (day : Nat) : Nat × Nat × Nat :=
  let shifted := day + daysBefore1970
  let era := shifted / daysPerEra
  let inEra := shifted % daysPerEra
  -- a leap day every 4 years, none every 100, one every 400
  let year := (inEra - inEra / 1460 + inEra / 36524 - inEra / 146096) / 365
  let inYear := inEra - (365 * year + year / 4 - year / 100)
  let month := (5 * inYear + 2) / 153
  let date := inYear - (153 * month + 2) / 5 + 1
  if month < 10 then (400 * era + year, month + 3, date)
  else (400 * era + year + 1, month - 9, date)

def text (seconds : Nat) : String :=
  let (year, month, date) := civil (seconds / 86400)
  let time := seconds % 86400
  padded 4 year ++ "-" ++ padded 2 month ++ "-" ++ padded 2 date ++ "T" ++
    padded 2 (time / 3600) ++ ":" ++ padded 2 (time / 60 % 60) ++ ":" ++ padded 2 (time % 60) ++ "Z"

end Loadout.Timestamp
