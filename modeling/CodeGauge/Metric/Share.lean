/-!
# Shares

A share is a quotient of two counts, kept exact until it is read as a double.
-/

namespace CodeGauge

/-- `part` out of `whole`. -/
structure Share where
  part : Nat
  whole : Nat
deriving DecidableEq

namespace Share

/-- The share that is zero. -/
def zero : Share := ⟨0, 1⟩

/-- The double nearest to a share. -/
def toFloat (s : Share) : Float := Float.ofNat s.part / Float.ofNat s.whole

end Share

end CodeGauge
