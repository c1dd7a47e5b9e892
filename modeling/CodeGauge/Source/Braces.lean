import CodeGauge.Text.Basic

/-!
# Braces

The number of opening and closing braces on a line.
-/

namespace CodeGauge

/-- How many braces of each kind a line has. -/
structure Braces where
  opening : Nat
  closing : Nat
deriving DecidableEq

namespace Braces

/-- The braces of a line. -/
def ofLine (line : Text) : Braces :=
  ⟨line.count '{', line.count '}'⟩

/-- By how much a line changes the depth. -/
def change (b : Braces) : Int := (b.opening : Int) - b.closing

end Braces

end CodeGauge
