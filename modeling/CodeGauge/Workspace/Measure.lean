import CodeGauge.Bundle.Basic
import CodeGauge.Metric.Afferent
import CodeGauge.Metric.Cognitive
import CodeGauge.Metric.Cohesion
import CodeGauge.Metric.Efferent
import CodeGauge.Metric.Instability
import CodeGauge.Metric.WeightedMethods
import CodeGauge.Workspace.Sources

/-!
# Measuring files

The metrics of a file of a tree, each on its own and all in a bundle. A metric that cannot be
computed is marked unavailable in the bundle, and the others are not touched by it.
-/

namespace CodeGauge

namespace Workspace

/-- A metric that needs only the file itself. -/
def measureFile {α : Type} (metric : Text → α) (t : FileTree) (path : Path) :
    Except MetricError α :=
  (read t path).map metric

/-- A metric that needs the file and its siblings. -/
def measureAmong {α : Type} (metric : Text → List Text → α) (t : FileTree) (path : Path) :
    Except MetricError α := do
  let source ← read t path
  let others ← siblings t path
  return metric source (others.map (·.2))

/-- The afferent coupling of a file. -/
def afferentCoupling : FileTree → Path → Except MetricError Nat := measureAmong Afferent.coupling

/-- The cognitive complexity of a file. -/
def cognitiveComplexity : FileTree → Path → Except MetricError Nat :=
  measureFile fun source => (Cognitive.complexity source).toNat

/-- The cyclomatic complexity of a file. -/
def cyclomaticComplexity : FileTree → Path → Except MetricError Nat :=
  measureFile Cyclomatic.complexity

/-- The efferent coupling of a file. -/
def efferentCoupling : FileTree → Path → Except MetricError Nat := measureFile Efferent.coupling

/-- The instability of a file, which has to declare a class or an interface. -/
def instability (t : FileTree) (path : Path) : Except MetricError Share := do
  match ← measureAmong Instability.ofSources t path with
  | some share => return share
  | none => throw (.noType path)

/-- The lack of cohesion of a file. -/
def lackOfCohesion : FileTree → Path → Except MetricError Nat := measureFile Cohesion.lack

/-- The tight cohesion of a file. -/
def tightCohesion : FileTree → Path → Except MetricError Share := measureFile Cohesion.tight

/-- The weighted method count of a file. -/
def weightedMethods : FileTree → Path → Except MetricError Nat := measureFile WeightedMethods.count

/-- What a measurement contributes to a bundle. -/
def reading {α β : Type} (f : α → β) : Except MetricError α → Reading β
  | .ok x => .value (f x)
  | .error e => .unavailable e.message

/-- All metrics of a file, taken at the given moment. -/
def bundle (t : FileTree) (now : Instant) (path : Path) : Bundle where
  afferentCoupling := reading id (afferentCoupling t path)
  cognitiveComplexity := reading id (cognitiveComplexity t path)
  cyclomaticComplexity := reading id (cyclomaticComplexity t path)
  efferentCoupling := reading id (efferentCoupling t path)
  instability := reading Share.toFloat (instability t path)
  lcom := reading id (lackOfCohesion t path)
  tcc := reading Share.toFloat (tightCohesion t path)
  wmc := reading id (weightedMethods t path)
  timestamp := now

end Workspace

end CodeGauge
