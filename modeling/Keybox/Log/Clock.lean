import Keybox.Text

/-!
# Time stamps

The time of a record as its line shows it: date and time of day, with milliseconds after a comma.
The date is that of the proleptic Gregorian calendar, counted in years that begin in March, so
that a leap day is the last of its year.
-/

namespace Keybox

namespace Clock

/-- A number with zeros in front up to a width. -/
def padded (width n : Nat) : Text :=
  let digits := Text.ofNat n
  List.replicate (width - digits.length) (chr '0') ++ digits

/-- Year, month and day of a number of days since the first of January 1970. -/
def date (days : Nat) : Nat × Nat × Nat :=
  let z := days + 719468
  let era := z / 146097
  let dayOfEra := z % 146097
  let yearOfEra := (dayOfEra - dayOfEra / 1460 + dayOfEra / 36524 - dayOfEra / 146096) / 365
  let dayOfYear := dayOfEra - (365 * yearOfEra + yearOfEra / 4 - yearOfEra / 100)
  let fromMarch := (5 * dayOfYear + 2) / 153
  let day := dayOfYear - (153 * fromMarch + 2) / 5 + 1
  let month := if fromMarch < 10 then fromMarch + 3 else fromMarch - 9
  let year := era * 400 + yearOfEra + (if month ≤ 2 then 1 else 0)
  (year, month, day)

/-- The stamp of a number of milliseconds since the beginning of 1970. -/
def stamp (milliseconds : Nat) : Text :=
  let seconds := milliseconds / 1000
  let (year, month, day) := date (seconds / 86400)
  padded 4 year ++ lit "-" ++ padded 2 month ++ lit "-" ++ padded 2 day ++ lit " " ++
    padded 2 (seconds / 3600 % 24) ++ lit ":" ++ padded 2 (seconds / 60 % 60) ++ lit ":" ++
    padded 2 (seconds % 60) ++ lit "," ++ padded 3 (milliseconds % 1000)

end Clock

end Keybox
