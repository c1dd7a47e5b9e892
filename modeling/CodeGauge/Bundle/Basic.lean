import CodeGauge.Metric.Kind
import CodeGauge.Time.Instant

/-!
# Bundles

A bundle holds the eight readings of one file and the moment when they were taken. A reading that
could not be taken carries the reason.
-/

namespace CodeGauge

/-- A reading, or the reason why there is none. -/
inductive Reading (α : Type) where
  | value (x : α)
  | unavailable (reason : String)
deriving BEq

namespace Reading

variable {α β : Type}

/-- The value of a reading, if there is one. -/
def value? : Reading α → Option α
  | value x => some x
  | unavailable _ => none

/-- The reason why there is no reading, if there is none. -/
def reason? : Reading α → Option String
  | value _ => none
  | unavailable reason => some reason

/-- The same reading in other terms. -/
def map (f : α → β) : Reading α → Reading β
  | value x => value (f x)
  | unavailable reason => unavailable reason

end Reading

/-- The readings of one file. -/
structure Bundle where
  afferentCoupling : Reading Nat
  cognitiveComplexity : Reading Nat
  cyclomaticComplexity : Reading Nat
  efferentCoupling : Reading Nat
  instability : Reading Float
  lcom : Reading Nat
  tcc : Reading Float
  wmc : Reading Nat
  timestamp : Instant
deriving BEq

namespace Bundle

/-- One reading as a number. -/
def reading (b : Bundle) : MetricKind → Reading Float
  | .afferentCoupling => b.afferentCoupling.map Float.ofNat
  | .cognitiveComplexity => b.cognitiveComplexity.map Float.ofNat
  | .cyclomaticComplexity => b.cyclomaticComplexity.map Float.ofNat
  | .efferentCoupling => b.efferentCoupling.map Float.ofNat
  | .instability => b.instability
  | .lcom => b.lcom.map Float.ofNat
  | .tcc => b.tcc
  | .wmc => b.wmc.map Float.ofNat

/-- The readings in order, with `none` for those that are missing. -/
def readings (b : Bundle) : List (MetricKind × Option Float) :=
  MetricKind.all.map fun kind => (kind, (b.reading kind).value?)

/-- The readings in order, with `-1` for those that are missing. -/
def sentinels (b : Bundle) : List Float :=
  MetricKind.all.map fun kind => (b.reading kind).value?.getD (-1)

/-- The reasons in order, with `none` for the readings that were taken. -/
def reasons (b : Bundle) : List (Option String) :=
  MetricKind.all.map fun kind => (b.reading kind).reason?

/-- Whether two bundles have the same readings, whatever their reasons and moments. -/
def sameValues (a b : Bundle) : Bool := a.readings == b.readings

end Bundle

end CodeGauge
