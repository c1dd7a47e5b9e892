import CodeGauge.Number.Fixed

/-!
# The eight metrics

Each metric has a label and bands that rate its readings. Counts are written without decimal places,
ratios with two.
-/

namespace CodeGauge

/-- The metrics, in the order in which they are reported. -/
inductive MetricKind where
  | afferentCoupling
  | cognitiveComplexity
  | cyclomaticComplexity
  | efferentCoupling
  | instability
  | lcom
  | tcc
  | wmc
deriving DecidableEq

/-- How good a reading is. -/
inductive Rating where
  | veryGood
  | acceptable
  | warning
  | bad
deriving DecidableEq

namespace Rating

/-- The words for a rating. -/
def label : Rating → String
  | veryGood => "very good"
  | acceptable => "acceptable"
  | warning => "warning"
  | bad => "bad"

end Rating

namespace MetricKind

/-- All metrics in order. -/
def all : List MetricKind :=
  [afferentCoupling, cognitiveComplexity, cyclomaticComplexity, efferentCoupling, instability, lcom,
    tcc, wmc]

/-- The name of a metric in reports. -/
def label : MetricKind → String
  | afferentCoupling => "afferentCoupling"
  | cognitiveComplexity => "cognitiveComplexity"
  | cyclomaticComplexity => "cyclomaticComplexity"
  | efferentCoupling => "efferentCoupling"
  | instability => "instability"
  | lcom => "lcom"
  | tcc => "tcc"
  | wmc => "wmc"

/-- The metric with a given name. -/
def ofLabel? (s : String) : Option MetricKind := all.find? (·.label = s)

/-- Whether readings are ratios between zero and one; the others are counts. -/
def isRatio : MetricKind → Bool
  | instability | tcc => true
  | _ => false

/-- The limits of the three better ratings, best first. -/
structure Bands where
  first : Float
  second : Float
  third : Float

/-- The limits of a metric. -/
def bands : MetricKind → Bands
  | afferentCoupling => ⟨3, 7, 12⟩
  | cognitiveComplexity => ⟨5, 10, 20⟩
  | cyclomaticComplexity => ⟨5, 10, 15⟩
  | efferentCoupling => ⟨5, 10, 20⟩
  | instability => ⟨0.2, 0.5, 0.8⟩
  | lcom => ⟨0, 2, 5⟩
  | tcc => ⟨0.8, 0.5, 0.3⟩
  | wmc => ⟨10, 20, 40⟩

/-- Whether a reading is within a limit: cohesion should be high, everything else low. -/
def within (kind : MetricKind) (value limit : Float) : Bool :=
  match kind with
  | tcc => limit ≤ value
  | _ => value ≤ limit

/-- The rating of a reading: the first band that holds it. -/
def rating (kind : MetricKind) (value : Float) : Rating :=
  let limits := kind.bands
  if kind.within value limits.first then .veryGood
  else if kind.within value limits.second then .acceptable
  else if kind.within value limits.third then .warning
  else .bad

/-- A reading as text: two places for a ratio, none for a count, and `-1` if there is none. -/
def format (kind : MetricKind) : Option Float → Text
  | none => "-1".toList
  | some value => fixedText (if kind.isRatio then 2 else 0) value

end MetricKind

end CodeGauge
