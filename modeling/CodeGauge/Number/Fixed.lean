import CodeGauge.Number.Shortest

/-!
# Doubles with a fixed number of places

The exact value of a double is rounded to the given number of decimal places; a half goes to the
even neighbour. The sign is kept, also that of a zero.
-/

namespace CodeGauge

/-- The quotient of two numbers rounded to the nearest number, a half to the even one. -/
def roundDiv (num den : Nat) : Nat :=
  let q := num / den
  let r := num % den
  if 2 * r < den then q
  else if den < 2 * r then q + 1
  else if q % 2 = 0 then q else q + 1

/-- A number of units of `10 ^ (-places)` as text. -/
def placesText (places units : Nat) : Text :=
  if places = 0 then digitsText units
  else
    let fraction := digitsText (units % Nat.pow 10 places)
    digitsText (units / Nat.pow 10 places) ++
      '.' :: (List.replicate (places - fraction.length) '0' ++ fraction)

/-- A double with so many decimal places. -/
def fixedText (places : Nat) (x : Float) : Text :=
  match Binary.ofFloat x with
  | .nan => "NaN".toList
  | .infinite negative => (if negative then "-inf" else "inf").toList
  | .finite negative m q =>
    let units := roundDiv (m * Nat.pow 2 q.toNat * Nat.pow 10 places) (Nat.pow 2 (-q).toNat)
    (if negative then ['-'] else []) ++ placesText places units

end CodeGauge
