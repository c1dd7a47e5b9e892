import CodeGauge.Metric.Cyclomatic
import CodeGauge.Source.Braces
import CodeGauge.Source.Member
import CodeGauge.Source.Stripped

/-!
# Weighted methods

The sum of the complexities of the methods of a source. A method weighs one, one more for each of
its lines with a branching keyword, and one for each logical operator in it. It ends with the first
line on which its braces, once opened, are balanced again.
-/

namespace CodeGauge

namespace WeightedMethods

/-- A branching keyword. -/
def branch : Pattern :=
  .wordEdge
    ++ .anyWord ["if", "else", "for", "while", "do", "switch", "case", "catch", "finally"]
    ++ .wordEdge

/-- A method that has begun and not ended. -/
structure Running where
  weight : Nat
  depth : Int
  /-- Whether a brace has been opened. -/
  opened : Bool
deriving DecidableEq

/-- A method of which no line has been read. -/
def begun : Running := ⟨1, 0, false⟩

/-- What a line of a method weighs. -/
def lineWeight (line : Text) : Nat :=
  (if branch.occursIn line then 1 else 0) + logicalOperator.count line

/-- A method after one more line. -/
def Running.read (m : Running) (line : Text) : Running :=
  let braces := Braces.ofLine line
  { weight := m.weight + lineWeight line
    depth := m.depth + braces.change
    opened := m.opened || 0 < braces.opening }

/-- Whether a method has ended. -/
def Running.ended (m : Running) : Bool := m.opened && m.depth ≤ 0

/-- The method that a line belongs to: the one that is running, or one that begins here. -/
def methodOn (running : Option Running) (line : Text) : Option Running :=
  match running with
  | some m => some m
  | none => if (Member.method? line).isSome then some begun else none

/-- The total weight of the methods that end in a list of lines. -/
def total : Option Running → List Text → Nat
  | _, [] => 0
  | running, line :: rest =>
    match methodOn running line with
    | none => total none rest
    | some m =>
      let m' := m.read line
      if m'.ended then m'.weight + total none rest else total (some m') rest

/-- The weighted method count of a source. -/
def count (source : Text) : Nat :=
  total none (Text.trimmedLines (Source.stripped source))

end WeightedMethods

end CodeGauge
