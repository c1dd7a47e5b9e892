/-!
# JSON values

Whole numbers and doubles are kept apart, and an object keeps its fields in order. Of several fields
with one name the last counts.
-/

namespace CodeGauge

/-- A JSON value. -/
inductive Json where
  | null
  | bool (b : Bool)
  | int (n : Int)
  | float (x : Float)
  | str (s : String)
  | arr (items : List Json)
  | obj (fields : List (String × Json))

namespace Json

/-- The value of a field of an object. -/
def field? (j : Json) (key : String) : Option Json :=
  match j with
  | obj fields => (fields.reverse.find? (·.1 = key)).map (·.2)
  | _ => none

/-- The text of a string. -/
def str? : Json → Option String
  | str s => some s
  | _ => none

/-- The items of an array. -/
def arr? : Json → Option (List Json)
  | arr items => some items
  | _ => none

/-- The value of a number, whole or not. -/
def number? : Json → Option Float
  | int n => some (if n < 0 then -Float.ofNat n.natAbs else Float.ofNat n.natAbs)
  | float x => some x
  | _ => none

/-- The value of a whole number that is not negative. -/
def nat? : Json → Option Nat
  | int n => if n < 0 then none else some n.toNat
  | _ => none

end Json

end CodeGauge
