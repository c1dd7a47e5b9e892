import CodeGauge.Text.Basic

/-!
# Reading decimals

A decimal text is read into its digits and exponent and then into a double: the nearest one, or the
one that double arithmetic arrives at from the leading digits, which may be off in the last place.
-/

namespace CodeGauge

/-- The value of a decimal digit. -/
def digitValue (c : Char) : Nat := c.toNat - '0'.toNat

/-- The number that a run of decimal digits stands for. -/
def readDigits (ds : Text) : Nat :=
  ds.foldl (fun n c => n * 10 + digitValue c) 0

/-- The run of decimal digits that a text starts with, and the rest. -/
def spanDigits (t : Text) : Text × Text := t.span Char.isDigit

/-- The double nearest to `digits · 10 ^ exponent`, or `none` if that is beyond all doubles. Values
that are far too small or too large are recognised by their number of digits alone. -/
def nearestFloat? (digits : Nat) (exponent : Int) : Option Float :=
  let top : Int := (Nat.toDigits 10 digits).length + exponent
  if digits = 0 ∨ top < -400 then some 0.0
  else if 400 < top then none
  else
    let x := Float.ofScientific digits (exponent < 0) exponent.natAbs
    if x.isFinite then some x else none

/-- Adds decimal digits to a number as long as it fits in 64 bits. Gives the number and the digits
that are left. -/
def takeDigits (n : Nat) : Text → Nat × Text
  | [] => (n, [])
  | c :: rest =>
    if n * 10 + digitValue c < Nat.pow 2 64 then takeDigits (n * 10 + digitValue c) rest
    else (n, c :: rest)

/-- The double nearest to a power of ten. -/
def tenTo (n : Nat) : Float := Float.ofScientific 1 false n

/-- The highest power of ten among the doubles. -/
def maxPower : Nat := 308

/-- Scales a double by a power of ten in double arithmetic: one multiplication or division, or two
divisions where the power is too small for one. Gives `none` if the result is beyond all doubles. -/
def scaleByTen? (x : Float) (exponent : Int) : Option Float :=
  if x == 0.0 then some x
  else if maxPower < exponent then none
  else if 0 ≤ exponent then
    let y := x * tenTo exponent.toNat
    if y.isFinite then some y else none
  else if -maxPower ≤ exponent then some (x / tenTo exponent.natAbs)
  else if -(2 * maxPower) ≤ exponent then
    some (x / tenTo maxPower / tenTo (exponent.natAbs - maxPower))
  else some 0.0

/-- Reads a decimal from the leading digits of its whole part and its fraction that fit in 64 bits
together. Every digit of the whole part that is left over counts as a power of ten; those of the
fraction are dropped. -/
def leadingFloat? (whole fraction : Text) (exponent : Int) : Option Float :=
  let (n, moreWhole) := takeDigits 0 whole
  let (m, moreFraction) := takeDigits n fraction
  scaleByTen? (Float.ofNat m)
    (moreWhole.length + moreFraction.length - fraction.length + exponent)

/-- A double or its negative. -/
def signed (negative : Bool) (x : Float) : Float := if negative then -x else x

/-- The exponent at the end of a decimal, if there is one: `e`, perhaps a sign, and digits. -/
def readExponent : Text → Option (Option Int × Text)
  | c :: rest =>
    if c = 'e' ∨ c = 'E' then
      let (negative, body) := match rest with
        | '-' :: more => (true, more)
        | '+' :: more => (false, more)
        | more => (false, more)
      match spanDigits body with
      | ([], _) => none
      | (ds, more) => some (some (if negative then -(readDigits ds : Int) else readDigits ds), more)
    else some (none, c :: rest)
  | [] => some (none, [])

/-- The sign that a text may start with, and the rest. -/
def readSign : Text → Bool × Text
  | '-' :: rest => (true, rest)
  | '+' :: rest => (false, rest)
  | rest => (false, rest)

/-- Reads a number written on its own: a decimal with optional sign, point and exponent, or one of
the words for infinity and for no number, in any case. -/
def readFloat? (t : Text) : Option Float :=
  let (negative, body) := readSign t
  let lower := body.map Char.toLower
  if lower = "inf".toList ∨ lower = "infinity".toList then some (signed negative (1.0 / 0.0))
  else if lower = "nan".toList then some (0.0 / 0.0)
  else
    let (whole, rest) := spanDigits body
    let (fraction, rest) := match rest with
      | '.' :: more => spanDigits more
      | more => ([], more)
    if whole.isEmpty && fraction.isEmpty then none
    else match readExponent rest with
      | some (e, []) =>
        let x := (nearestFloat? (readDigits (whole ++ fraction)) (e.getD 0 - fraction.length)).getD
          (1.0 / 0.0)
        some (signed negative x)
      | _ => none

end CodeGauge
