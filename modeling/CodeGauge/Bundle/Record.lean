import CodeGauge.Bundle.Basic
import CodeGauge.Json.Basic
import CodeGauge.Time.Reader

/-!
# Bundles as JSON

A reading is written as a number, a missing one as an object that holds the reason. When a bundle is
read back, all nine fields must be there; further ones are ignored. An object may also be given as
the list of its fields in order.
-/

namespace CodeGauge

namespace Reading

variable {α : Type}

/-- A reading as JSON. -/
def toJson (number : α → Json) : Reading α → Json
  | value x => number x
  | unavailable reason => .obj [("unavailable", .str reason)]

/-- Reads a reading, given how its numbers are read. -/
def ofJson? (number? : Json → Option α) (j : Json) : Option (Reading α) :=
  match number? j with
  | some x => some (value x)
  | none =>
    match j with
    | .obj _ => ((j.field? "unavailable").bind Json.str?).map unavailable
    | .arr [.str reason] => some (unavailable reason)
    | _ => none

end Reading

namespace Bundle

/-- The largest count that a bundle holds. -/
def maxCount : Nat := 4294967295

/-- Reads a count: a whole number from zero to the largest one. -/
def count? (j : Json) : Option Nat := j.nat?.filter (· ≤ maxCount)

/-- A count as JSON. -/
def countJson (n : Nat) : Json := .int n

/-- The fields for the eight readings, in order. -/
def readingFields (b : Bundle) : List (String × Json) :=
  [("afferentCoupling", b.afferentCoupling.toJson countJson),
    ("cognitiveComplexity", b.cognitiveComplexity.toJson countJson),
    ("cyclomaticComplexity", b.cyclomaticComplexity.toJson countJson),
    ("efferentCoupling", b.efferentCoupling.toJson countJson),
    ("instability", b.instability.toJson .float),
    ("lcom", b.lcom.toJson countJson),
    ("tcc", b.tcc.toJson .float),
    ("wmc", b.wmc.toJson countJson)]

/-- All fields of a bundle, in order. -/
def fields (b : Bundle) : List (String × Json) :=
  b.readingFields ++ [("timestamp", .str (String.ofList b.timestamp.text))]

/-- A bundle as JSON. -/
def toJson (b : Bundle) : Json := .obj b.fields

/-- The names of the fields of a bundle, in order. -/
def fieldNames : List String := MetricKind.all.map MetricKind.label ++ ["timestamp"]

/-- The field with a given name, of an object or of a list of nine fields. -/
def fieldOf? (j : Json) (name : String) : Option Json :=
  match j with
  | .obj _ => j.field? name
  | .arr items =>
    if items.length = fieldNames.length then items[fieldNames.idxOf name]? else none
  | _ => none

/-- Reads a bundle. -/
def ofJson? (j : Json) : Option Bundle := do
  let count (name : String) := (fieldOf? j name).bind (Reading.ofJson? count?)
  let ratio (name : String) := (fieldOf? j name).bind (Reading.ofJson? Json.number?)
  let afferentCoupling ← count "afferentCoupling"
  let cognitiveComplexity ← count "cognitiveComplexity"
  let cyclomaticComplexity ← count "cyclomaticComplexity"
  let efferentCoupling ← count "efferentCoupling"
  let instability ← ratio "instability"
  let lcom ← count "lcom"
  let tcc ← ratio "tcc"
  let wmc ← count "wmc"
  let stamp ← (fieldOf? j "timestamp").bind Json.str?
  let timestamp ← Instant.parse? stamp.toList
  return { afferentCoupling, cognitiveComplexity, cyclomaticComplexity, efferentCoupling,
           instability, lcom, tcc, wmc, timestamp }

end Bundle

end CodeGauge
