/-!
# Binary floating-point numbers taken apart

A finite double is plus or minus `significand · 2 ^ exponent`. All text forms of a number are
computed from these parts in exact arithmetic on natural numbers.
-/

namespace CodeGauge

/-- What a double stands for. -/
inductive Binary where
  | nan
  | infinite (negative : Bool)
  | finite (negative : Bool) (significand : Nat) (exponent : Int)
deriving DecidableEq

namespace Binary

/-- The significand of a normal double is below this and at least half of it. -/
def significandBound : Nat := Nat.pow 2 53

/-- The exponent of the smallest positive double. -/
def leastExponent : Int := -1074

/-- The parts of a double, read off its bits: one for the sign, eleven for the exponent, and 52 for
the significand. -/
def ofBits (bits : Nat) : Binary :=
  let negative : Bool := bits / Nat.pow 2 63 % 2 = 1
  let biased : Nat := bits / Nat.pow 2 52 % Nat.pow 2 11
  let fraction : Nat := bits % Nat.pow 2 52
  if biased = Nat.pow 2 11 - 1 then
    if fraction = 0 then infinite negative else nan
  else if biased = 0 then finite negative fraction leastExponent
  else finite negative (Nat.pow 2 52 + fraction) (leastExponent + biased - 1)

/-- The parts of a double. -/
def ofFloat (x : Float) : Binary := ofBits x.toBits.toNat

end Binary

end CodeGauge
