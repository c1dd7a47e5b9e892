import CodeGauge.Number.Reading
import CodeGauge.Time.Instant

/-!
# Reading instants

A date, a time of day and an offset from universal time. White space may stand before every number
and sign, the parts may have fewer digits than they are printed with, and the fraction may be of any
length; digits beyond nanoseconds are dropped.
-/

namespace CodeGauge

namespace Instant

/-- Reads a number of at most `most` digits after white space. -/
def readPart (most : Nat) (t : Text) : Option (Nat × Text) :=
  let body := Text.trimStart t
  let ds := (body.takeWhile Char.isDigit).take most
  if ds.isEmpty then none else some (readDigits ds, body.drop ds.length)

/-- Reads a year: four digits at most, or a sign and any number of digits. -/
def readYear (t : Text) : Option (Int × Text) :=
  match Text.trimStart t with
  | '-' :: rest =>
    match spanDigits rest with
    | ([], _) => none
    | (ds, more) => some (-(readDigits ds : Int), more)
  | '+' :: rest =>
    match spanDigits rest with
    | ([], _) => none
    | (ds, more) => some ((readDigits ds : Int), more)
  | rest => (readPart 4 rest).map fun (n, more) => ((n : Int), more)

/-- Reads a sign between two parts, after white space. -/
def readMark (c : Char) (t : Text) : Option Text :=
  match Text.trimStart t with
  | d :: rest => if c = d then some rest else none
  | [] => none

/-- Reads the fraction of a second, if there is one. -/
def readNanos : Text → Option (Nat × Text)
  | '.' :: rest =>
    match spanDigits rest with
    | ([], _) => none
    | (ds, more) =>
      let kept := ds.take 9
      some (readDigits kept * Nat.pow 10 (9 - kept.length), more)
  | rest => some (0, rest)

/-- Reads two digits. -/
def readTwo : Text → Option (Nat × Text)
  | a :: b :: rest =>
    if a.isDigit && b.isDigit then some (digitValue a * 10 + digitValue b, rest) else none
  | _ => none

/-- Reads the offset from universal time in minutes. -/
def readOffset (t : Text) : Option (Int × Text) :=
  match Text.trimStart t with
  | c :: rest =>
    if (c :: rest.take 2).map Char.toUpper = "UTC".toList then some (0, rest.drop 2)
    else if c = 'Z' ∨ c = 'z' then some (0, rest)
    else if c = '+' ∨ c = '-' ∨ c.toNat = 0x2212 then do
      let (hours, afterHours) ← readTwo rest
      let (minutes, more) ← readTwo (afterHours.dropWhile fun d => d == ':' || isBlank d)
      if minutes < 60 ∧ hours < 24 then
        let offset : Int := hours * 60 + minutes
        some (if c = '+' then offset else -offset, more)
      else none
    else none
  | [] => none

/-- Whether the parts are those of a date and a time of day; second 60 is a leap second. -/
def isValid (t : Instant) : Bool :=
  -262143 ≤ t.year && t.year ≤ 262142 && 1 ≤ t.month && t.month ≤ 12 && 1 ≤ t.day
    && t.day ≤ monthLength t.year t.month && t.hour < 24 && t.minute < 60 && t.second ≤ 60

/-- Reads an instant; the result is in universal time. -/
def parse? (t : Text) : Option Instant := do
  let (year, rest) ← readYear t
  let rest ← readMark '-' rest
  let (month, rest) ← readPart 2 rest
  let rest ← readMark '-' rest
  let (day, rest) ← readPart 2 rest
  let rest ← match rest with
    | c :: more => if c = 'T' ∨ c = 't' ∨ c = ' ' then some more else none
    | [] => none
  let (hour, rest) ← readPart 2 rest
  let rest ← readMark ':' rest
  let (minute, rest) ← readPart 2 rest
  let rest ← readMark ':' rest
  let (second, rest) ← readPart 2 rest
  let (nanos, rest) ← readNanos rest
  let (offset, rest) ← readOffset rest
  let there : Instant := { year, month, day, hour, minute, second, nanos }
  if there.isValid ∧ (Text.trimStart rest).isEmpty then
    let utc := there.shiftMinutes (-offset)
    if utc.isValid then some utc else none
  else none

end Instant

end CodeGauge
