import CodeGauge.Number.Reading
import CodeGauge.Time.Instant
import CodeGauge.Toml.Basic

/-!
# TOML scalars

Numbers, Booleans and moments are words without blanks, apart from the one blank that may stand
between a date and a time. `Toml.ofWord?` reads a whole word.
-/

namespace CodeGauge

namespace Toml

/-! ## Numbers -/

/-- The value of a digit in bases up to sixteen. -/
def digitOf? (c : Char) : Option Nat :=
  if c.isDigit then some (c.toNat - 48)
  else if 'a' ≤ c ∧ c ≤ 'f' then some (c.toNat - 87)
  else if 'A' ≤ c ∧ c ≤ 'F' then some (c.toNat - 55)
  else none

/-- The number that digits of a base stand for. -/
def ofDigits? (base : Nat) (ds : Text) : Option Nat :=
  ds.foldlM (fun n c => ((digitOf? c).filter (· < base)).map (n * base + ·)) 0

/-- Whether a text ends in a character of a class. -/
def endsIn (accepts : Char → Bool) (t : Text) : Bool := t.getLast?.any accepts

/-- Whether a text starts with a character of a class. -/
def startsIn (accepts : Char → Bool) (t : Text) : Bool := t.head?.any accepts

/-- A number without the underscores in it. Each has to stand between two digits, but the first may
also follow a sign. -/
def ungroup? (digit : Char → Bool) (t : Text) : Option Text :=
  match Text.splitWhere (· == '_') t with
  | first :: second :: more =>
    let rest := second :: more
    if (first.length = 1 ∨ endsIn digit first) ∧ rest.all (startsIn digit)
        ∧ rest.dropLast.all (endsIn digit) then
      some (first ++ rest.flatten)
    else none
  | _ => some t

/-- The least and the greatest whole number that can be held. -/
def intBounds : Int × Int := (-Int.pow 2 127, Int.pow 2 128 - 1)

/-- The whole number that digits of a base stand for, with or without a sign. -/
def ofWhole (base : Nat) (word t : Text) : Toml :=
  let (negative, ds) := readSign t
  match if ds.isEmpty then none else ofDigits? base ds with
  | some n =>
    let n : Int := if negative then -n else n
    if intBounds.1 ≤ n ∧ n ≤ intBounds.2 then int n else noNumber word
  | none => noNumber word

/-- Whether a character is a hexadecimal digit. -/
def isHexDigit (c : Char) : Bool := (digitOf? c).isSome

/-- A number written in hexadecimal, octal or binary digits, which may be missing. -/
def ofRadix? (base : Nat) (word ds : Text) : Option Toml :=
  if ds.all fun c => c == '_' || (digitOf? c).any (· < base) then
    if startsIn (· == '_') ds then none else (ungroup? isHexDigit ds).map (ofWhole base word)
  else none

/-- Whether a text is a run of decimal digits and underscores with at least one digit. -/
def isRun (t : Text) : Bool := t.all (fun c => c.isDigit || c == '_') && t.any Char.isDigit

/-- Whether a run of digits starts with a needless zero. -/
def isPadded (t : Text) : Bool := startsIn (· == '0') t && 1 < t.countP Char.isDigit

/-- Whether a text has the form of a number with a point, an exponent, or both, underscores
apart. -/
def isFloatForm (body : Text) : Bool :=
  let (mantissa, tail) := body.span fun c => c != 'e' && c != 'E'
  let (whole, point) := mantissa.span (· != '.')
  isRun whole && !isPadded whole
    && (match point with
      | [] => true
      | _ :: ds => isRun ds)
    && match tail with
      | [] => true
      | _ :: ds => isRun (readSign ds).2

/-- A number with a point, an exponent, or both. -/
def ofFloat? (word body : Text) : Option Toml :=
  if isFloatForm body then
    (ungroup? Char.isDigit word).map fun t =>
      match (readFloat? t).filter Float.isFinite with
      | some x => float x
      | none => noNumber word
  else none

/-- A decimal number. One that is grouped by underscores is known by its first ones and may hold
other characters further on, but then it stands for no number. -/
def ofDecimal? (word : Text) : Option Toml :=
  let (negative, body) := readSign word
  let rest := body.dropWhile Char.isDigit
  if body = "inf".toList then some (float (signed negative (1.0 / 0.0)))
  else if body = "nan".toList then some (float (0.0 / 0.0))
  else if startsIn (fun c => c == '-' || c == ':') rest then none
  else if rest.any fun c => c == '.' || c == 'e' || c == 'E' then ofFloat? word body
  else if rest.isEmpty then
    if body.isEmpty ∨ isPadded body then none else some (ofWhole 10 word word)
  else if startsIn (· == '_') rest ∧ ¬startsIn (· == '0') body ∧ ¬startsIn (· == '_') word then
    (ungroup? isHexDigit word).map (ofWhole 10 word)
  else none

/-- A number. -/
def ofNumber? (word : Text) : Option Toml :=
  match word with
  | '0' :: 'x' :: ds => ofRadix? 16 word ds
  | '0' :: 'o' :: ds => ofRadix? 8 word ds
  | '0' :: 'b' :: ds => ofRadix? 2 word ds
  | _ => ofDecimal? word

/-! ## Moments -/

/-- The number written with exactly the given count of digits. -/
def fixedDigits? (count : Nat) (t : Text) : Option Nat :=
  if t.length = count ∧ t.all Char.isDigit then some (readDigits t) else none

/-- Whether a text is a date. -/
def isDate (t : Text) : Bool :=
  match Text.splitWhere (· == '-') t with
  | [y, m, d] =>
    match fixedDigits? 4 y, fixedDigits? 2 m, fixedDigits? 2 d with
    | some y, some m, some d => 1 ≤ m && m ≤ 12 && 1 ≤ d && d ≤ Instant.monthLength y m
    | _, _, _ => false
  | _ => false

/-- Whether a text is a number of two digits up to a bound. -/
def isTwoDigits (bound : Nat) (t : Text) : Bool := (fixedDigits? 2 t).any (· ≤ bound)

/-- Whether a text gives seconds, with or without a fraction. -/
def isSeconds (t : Text) : Bool :=
  let (whole, fraction) := t.span (· != '.')
  isTwoDigits 60 whole &&
    match fraction with
    | [] => true
    | _ :: ds => !ds.isEmpty && ds.all Char.isDigit

/-- Whether a text is a time of day; the seconds may be left out. -/
def isTime (t : Text) : Bool :=
  match Text.splitWhere (· == ':') t with
  | [h, m] => isTwoDigits 23 h && isTwoDigits 59 m
  | [h, m, s] => isTwoDigits 23 h && isTwoDigits 59 m && isSeconds s
  | _ => false

/-- Whether a text is a time of day with an optional distance from universal time. -/
def isOffsetTime (t : Text) : Bool :=
  let (time, offset) := t.span fun c => !(c == 'Z' || c == 'z' || c == '+' || c == '-')
  isTime time &&
    match offset with
    | [] => true
    | c :: rest =>
      if c = 'Z' ∨ c = 'z' then rest.isEmpty
      else
        match Text.splitWhere (· == ':') rest with
        | [h, m] => isTwoDigits 23 h && isTwoDigits 59 m
        | _ => false

/-- Whether a text is a date, a time, or a date and a time with a letter or a blank between them. -/
def isMoment (t : Text) : Bool :=
  isDate t || isTime t ||
    match t.drop 10 with
    | c :: time => (c == 'T' || c == 't' || c == ' ') && isDate (t.take 10) && isOffsetTime time
    | [] => false

/-! ## Words -/

/-- The value that a word stands for. -/
def ofWord? (t : Text) : Option Toml :=
  if t = "true".toList then some (bool true)
  else if t = "false".toList then some (bool false)
  else if isMoment t then some (moment t)
  else ofNumber? t

end Toml

end CodeGauge
