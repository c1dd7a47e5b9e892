import CodeGauge.Number.Binary
import CodeGauge.Text.Basic

/-!
# The shortest decimal form of a double

Of all decimals that read back as a given double, `shortest` gives one with the fewest digits, and
of those the nearest to the double; of two equally near the one whose last digit is even. The
decimals that read back form an interval around the double. Its ends are half way to the
neighbouring doubles and belong to it if the significand is even.
-/

namespace CodeGauge

/-- A decimal `digits · 10 ^ exponent`. -/
structure Decimal where
  digits : Nat
  exponent : Int
deriving DecidableEq

/-- The decimals that read back as one positive double: from `low / den` to `high / den`, around
`value / den`. -/
structure Roundings where
  low : Nat
  value : Nat
  high : Nat
  den : Nat
  /-- Whether the two ends belong to the interval. -/
  closed : Bool

namespace Roundings

/-- The interval around `significand · 2 ^ exponent`. Below a power of two the doubles are twice as
dense, so there the lower end is nearer. -/
def around (significand : Nat) (exponent : Int) : Roundings :=
  let scale := Nat.pow 2 (exponent - 2).toNat
  let below :=
    if 2 * significand = Binary.significandBound ∧ Binary.leastExponent < exponent then 1 else 2
  { low := (4 * significand - below) * scale
    value := 4 * significand * scale
    high := (4 * significand + 2) * scale
    den := Nat.pow 2 (2 - exponent).toNat
    closed := significand % 2 = 0 }

/-- Whether a decimal lies in the interval. -/
def holds (r : Roundings) (d : Decimal) : Bool :=
  let x := d.digits * Nat.pow 10 d.exponent.toNat * r.den
  let scale := Nat.pow 10 (-d.exponent).toNat
  if r.closed then r.low * scale ≤ x && x ≤ r.high * scale
  else r.low * scale < x && x < r.high * scale

/-- The least `j ≥ start` with `num · 10 ^ (j + 1) ≥ den`, looked for in `fuel` steps. -/
def leadingZeros (num den : Nat) : Nat → Nat → Nat
  | 0, start => start
  | fuel + 1, start =>
    if den ≤ num * 10 then start else leadingZeros (num * 10) den fuel (start + 1)

/-- The number of digits before the decimal point; for a value below one, minus the number of
zeros that follow the point. -/
def magnitude (r : Roundings) : Int :=
  if r.den ≤ r.value then (Nat.toDigits 10 (r.value / r.den)).length
  else -(leadingZeros r.value r.den 400 0 : Nat)

/-- The decimal with the given exponent that lies in the interval, nearest to the value. -/
def onGrid? (r : Roundings) (exponent : Int) : Option Decimal :=
  let num := r.value * Nat.pow 10 (-exponent).toNat
  let den := r.den * Nat.pow 10 exponent.toNat
  let down : Decimal := ⟨num / den, exponent⟩
  let up : Decimal := ⟨num / den + 1, exponent⟩
  match r.holds down, r.holds up with
  | false, false => none
  | true, false => some down
  | false, true => some up
  | true, true =>
    if 2 * (num % den) < den then some down
    else if den < 2 * (num % den) then some up
    else if down.digits % 2 = 0 then some down else some up

end Roundings

/-- A decimal without trailing zeros among its digits. -/
def Decimal.trimZeros : Nat → Decimal → Decimal
  | 0, d => d
  | fuel + 1, d =>
    if d.digits ≠ 0 ∧ d.digits % 10 = 0 then trimZeros fuel ⟨d.digits / 10, d.exponent + 1⟩ else d

/-- The shortest decimal that reads back as the positive double `significand · 2 ^ exponent`.
Seventeen digits always suffice. -/
def shortest (significand : Nat) (exponent : Int) : Decimal :=
  let r := Roundings.around significand exponent
  let top := r.magnitude
  let found := (List.range 17).findSome? fun n => r.onGrid? (top - (n + 1 : Nat))
  (found.getD ⟨0, 0⟩).trimZeros 20

/-- How decimals are laid out as text. -/
structure DecimalLayout where
  /-- The least decimal exponent written positionally. -/
  least : Int
  /-- The greatest decimal exponent written positionally. -/
  greatest : Int

/-- The digits of a number as text. -/
def digitsText (n : Nat) : Text := Nat.toDigits 10 n

/-- A decimal as text: positional, with a digit on either side of the point, while its decimal
exponent is in range, else with one digit before the point and a signed exponent. -/
def Decimal.layOut (layout : DecimalLayout) (d : Decimal) : Text :=
  let ds := digitsText d.digits
  let scientific : Int := d.exponent + ds.length - 1
  if layout.least ≤ scientific ∧ scientific ≤ layout.greatest then
    if scientific < 0 then "0.".toList ++ List.replicate (-scientific - 1).toNat '0' ++ ds
    else
      let whole := (scientific + 1).toNat
      if ds.length ≤ whole then ds ++ List.replicate (whole - ds.length) '0' ++ ".0".toList
      else ds.take whole ++ '.' :: ds.drop whole
  else
    let fraction := if ds.length ≤ 1 then [] else '.' :: ds.drop 1
    let sign := if scientific < 0 then '-' else '+'
    ds.take 1 ++ fraction ++ 'e' :: sign :: digitsText scientific.natAbs

end CodeGauge
