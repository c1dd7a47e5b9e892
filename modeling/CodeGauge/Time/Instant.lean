import CodeGauge.Text.Basic
import CodeGauge.Number.Shortest

/-!
# Instants

An instant is a calendar date and a time of day in universal time, down to nanoseconds. Second 60 is
a leap second. The text form has the fewest of 0, 3, 6 or 9 decimal places that hold the fraction.
-/

namespace CodeGauge

/-- A moment in universal time. -/
structure Instant where
  year : Int
  month : Nat
  day : Nat
  hour : Nat
  minute : Nat
  second : Nat
  nanos : Nat
deriving DecidableEq

namespace Instant

/-- Whether a year of the Gregorian calendar has a leap day. -/
def isLeap (year : Int) : Bool :=
  year % 4 = 0 && (year % 100 ≠ 0 || year % 400 = 0)

/-- The number of days of a month. -/
def monthLength (year : Int) (month : Nat) : Nat :=
  if month = 2 then if isLeap year then 29 else 28
  else if month = 4 ∨ month = 6 ∨ month = 9 ∨ month = 11 then 30
  else 31

/-- The same time on the day after. -/
def nextDay (t : Instant) : Instant :=
  if t.day < monthLength t.year t.month then { t with day := t.day + 1 }
  else if t.month < 12 then { t with month := t.month + 1, day := 1 }
  else { t with year := t.year + 1, month := 1, day := 1 }

/-- The same time on the day before. -/
def previousDay (t : Instant) : Instant :=
  if 1 < t.day then { t with day := t.day - 1 }
  else if 1 < t.month then
    { t with month := t.month - 1, day := monthLength t.year (t.month - 1) }
  else { t with year := t.year - 1, month := 12, day := 31 }

/-- The instant so many minutes later, or earlier if the number is negative, by less than a day. -/
def shiftMinutes (t : Instant) (minutes : Int) : Instant :=
  let total := (t.hour : Int) * 60 + t.minute + minutes
  let ofDay := (total % 1440).toNat
  let moved := { t with hour := ofDay / 60, minute := ofDay % 60 }
  if total < 0 then moved.previousDay
  else if 1440 ≤ total then moved.nextDay
  else moved

/-- The number of days since the first of January 1970. Years are counted from March on, so that the
leap day is the last day of its year. -/
def dayNumber (t : Instant) : Int :=
  let year := if t.month ≤ 2 then t.year - 1 else t.year
  let monthFromMarch : Int := if t.month ≤ 2 then t.month + 9 else t.month - 3
  365 * year + year / 4 - year / 100 + year / 400 + (153 * monthFromMarch + 2) / 5 + t.day - 719469

/-- The number of nanoseconds since the start of the year 1970. -/
def toNanos (t : Instant) : Int :=
  ((t.dayNumber * 24 + t.hour) * 60 + t.minute) * 60000000000 + t.second * 1000000000 + t.nanos

/-- The age of an instant at another one, in nanoseconds; zero if it is not past. -/
def age (now t : Instant) : Nat := (now.toNanos - t.toNanos).toNat

/-- The start of the year 1970. -/
def epoch : Instant := ⟨1970, 1, 1, 0, 0, 0, 0⟩

/-- The instant so many nanoseconds after the start of the year 1970. -/
def ofNanos (n : Nat) : Instant :=
  let seconds := n / 1000000000
  let days := seconds / 86400
  let ofDay := seconds % 86400
  -- days since the first of March of the year 0, split into cycles of 400 years
  let shifted := days + 719468
  let cycle := shifted / 146097
  let ofCycle := shifted % 146097
  let yearOfCycle := (ofCycle - ofCycle / 1460 + ofCycle / 36524 - ofCycle / 146096) / 365
  let ofYear := ofCycle - (365 * yearOfCycle + yearOfCycle / 4 - yearOfCycle / 100)
  let monthFromMarch := (5 * ofYear + 2) / 153
  let month := if monthFromMarch < 10 then monthFromMarch + 3 else monthFromMarch - 9
  { year := (yearOfCycle + 400 * cycle : Nat) + (if month ≤ 2 then 1 else 0)
    month
    day := ofYear - (153 * monthFromMarch + 2) / 5 + 1
    hour := ofDay / 3600
    minute := ofDay % 3600 / 60
    second := ofDay % 60
    nanos := n % 1000000000 }

/-! ## Text form -/

/-- A number with at least so many digits. -/
def padded (width n : Nat) : Text :=
  let ds := digitsText n
  List.replicate (width - ds.length) '0' ++ ds

/-- A year: four digits, or a sign and at least four digits outside the years 0 to 9999. -/
def yearText (year : Int) : Text :=
  if 0 ≤ year ∧ year ≤ 9999 then padded 4 year.toNat
  else (if year < 0 then '-' else '+') :: padded 4 year.natAbs

/-- The fraction of a second with the fewest of 0, 3, 6 or 9 places that hold it. -/
def fractionText (nanos : Nat) : Text :=
  if nanos = 0 then []
  else if nanos % 1000000 = 0 then '.' :: padded 3 (nanos / 1000000)
  else if nanos % 1000 = 0 then '.' :: padded 6 (nanos / 1000)
  else '.' :: padded 9 nanos

/-- The text form of an instant. -/
def text (t : Instant) : Text :=
  yearText t.year ++ '-' :: padded 2 t.month ++ '-' :: padded 2 t.day ++ 'T' :: padded 2 t.hour
    ++ ':' :: padded 2 t.minute ++ ':' :: padded 2 t.second ++ fractionText t.nanos ++ ['Z']

end Instant

end CodeGauge
