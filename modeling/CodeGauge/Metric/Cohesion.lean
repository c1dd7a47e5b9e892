import CodeGauge.Metric.Share
import CodeGauge.Source.ClassShape
import CodeGauge.Source.Stripped

/-!
# Cohesion

Two methods of a class belong together if they use a common instance field. The lack of cohesion is
the surplus of pairs of methods that share no field over those that do; the tight cohesion is the
share of pairs that do. The two differ in what counts as a use of a field.
-/

namespace CodeGauge

namespace Cohesion

/-- For each method the fields that it uses, where `use` tells how a field is used. -/
def usage (shape : ClassShape) (use : Text → Pattern) : List (List Text) :=
  shape.methods.map fun m => shape.fields.filter fun field => (use field).occursIn m.2

/-- Whether two methods use a common field. -/
def shares (left right : List Text) : Bool := left.any right.contains

/-- The number of pairs that share a field, and of those that do not. They are counted in 32 bits,
and a count that does not fit wraps around. -/
structure Pairs where
  sharing : UInt32
  disjoint : UInt32
deriving DecidableEq

/-- The number of methods that a method shares a field with. One that uses no field need not be
compared. -/
def partners (left : List Text) (others : List (List Text)) : Nat :=
  if left.isEmpty then 0 else others.countP (shares left)

/-- The number of methods in a list, and the pairs among them, each method with every later one. -/
def Pairs.count : List (List Text) → Nat × Pairs
  | [] => (0, ⟨0, 0⟩)
  | left :: rest =>
    let (later, more) := Pairs.count rest
    let common := partners left rest
    (later + 1, ⟨.ofNat common + more.sharing, .ofNat (later - common) + more.disjoint⟩)

/-- The pairs among a list of methods. -/
def Pairs.ofUsage (usages : List (List Text)) : Pairs := (Pairs.count usages).2

/-- A field named on its own or through `this`. -/
def namedUse (field : Text) : Pattern :=
  .wordEdge ++ .optional (.word "this.") ++ .literal field ++ .wordEdge

/-- An operator sign. -/
def isOperator (c : Char) : Bool := "-+*/%=<>!".toList.contains c

/-- A field used in any of the wider ways: named, beside an operator, between parentheses, as an
index or indexed, or with a member taken from it. The last ones need no word edge. -/
def looseUse (field : Text) : Pattern :=
  .oneOf
    [.wordEdge ++ .word "this." ++ .literal field ++ .wordEdge,
      .wordEdge ++ .literal field ++ .wordEdge,
      .wordEdge ++ .literal field ++ .blanks ++ .one isOperator,
      .one isOperator ++ .blanks ++ .literal field ++ .wordEdge,
      .char '(' ++ .onLine ++ .literal field ++ .onLine ++ .char ')',
      .char '[' ++ .literal field ++ .char ']',
      .literal field ++ .char '[',
      .literal field ++ .char '.' ++ .many1 isWordChar]

/-- The shape of the first class of a source. -/
def shapeOf (source : Text) : ClassShape := ClassShape.ofSource (Source.stripped source)

/-- The lack of cohesion of the methods of a source. -/
def lack (source : Text) : Nat :=
  let shape := shapeOf source
  if shape.methods.length < 2 then 0
  else
    let pairs := Pairs.ofUsage (usage shape namedUse)
    pairs.disjoint.toNat - pairs.sharing.toNat

/-- The tight cohesion of the class of a source. -/
def tight (source : Text) : Share :=
  let shape := shapeOf source
  let n := shape.methods.length
  if n < 2 then .zero
  else ⟨(Pairs.ofUsage (usage shape looseUse)).sharing.toNat, n * (n - 1) / 2⟩

end Cohesion

end CodeGauge
