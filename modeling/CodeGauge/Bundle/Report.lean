import CodeGauge.Bundle.Record
import CodeGauge.Json.Printer
import CodeGauge.Path.Basic

/-!
# Reports

Bundles as text, one reading to a line, and as JSON; snapshots of many files sorted by path.
-/

namespace CodeGauge

namespace Bundle

/-- The line for one reading; a verbose line also rates it. -/
def readingLine (verbose : Bool) (kind : MetricKind) (value : Option Float) : Text :=
  let rated := match verbose, value with
    | true, some v => " (".toList ++ (kind.rating v).label.toList ++ [')']
    | _, _ => []
  kind.label.toList ++ ": ".toList ++ kind.format value ++ rated

/-- The lines for the eight readings. -/
def lines (b : Bundle) (verbose : Bool) : List Text :=
  b.readings.map fun (kind, value) => readingLine verbose kind value

/-- Lines with a newline after each. -/
def closeLines (ls : List Text) : Text := ls.flatMap fun l => l ++ ['\n']

/-- The readings of a bundle as text. -/
def render (b : Bundle) (verbose : Bool) : Text := closeLines (b.lines verbose)

/-- The title that names a file. -/
def title (path : Path) : Text := "File name: ".toList ++ path.display ++ "\n\n".toList

/-- A bundle with its file name, to be quoted in other text. -/
def reportBlock (path : Path) (b : Bundle) : Text :=
  title path ++ "File metrics:\n".toList ++ b.render false

/-- A bundle with its path as a JSON text. -/
def jsonText (path : Path) (b : Bundle) : Text :=
  (Json.obj (("path", .str (String.ofList path.display)) :: b.fields)).pretty

end Bundle

/-- The bundles of several files. -/
abbrev Snapshot := List (Path × Bundle)

namespace Snapshot

/-- Stores the bundle of a path. A path that is there already, in whatever spelling, keeps its place
and its spelling. -/
def store (s : Snapshot) (path : Path) (bundle : Bundle) : Snapshot :=
  if s.any (·.1.same path) then s.map fun e => if e.1.same path then (e.1, bundle) else e
  else s ++ [(path, bundle)]

/-- The bundle of a path in whatever spelling. -/
def lookup? (s : Snapshot) (path : Path) : Option Bundle :=
  (s.find? (·.1.same path)).map (·.2)

/-- A snapshot sorted by the components of its paths. -/
def sorted (s : Snapshot) : Snapshot := s.mergeSort fun a b => a.1.le b.1

/-- A snapshot as text, sorted by path components. -/
def text (s : Snapshot) (verbose : Bool) : Text :=
  (sorted s).flatMap fun (path, bundle) =>
    path.display ++ '\n' :: Bundle.closeLines ((bundle.lines verbose).map fun l => ' ' :: ' ' :: l)

/-- The bundles of a snapshot under the paths as they are shown. Of several paths that are shown
alike the last one counts. -/
def shown (s : Snapshot) : List (Text × Bundle) :=
  s.foldl (fun named e => named.filter (·.1 ≠ e.1.display) ++ [(e.1.display, e.2)]) []

/-- A snapshot as a JSON text, sorted by the paths as they are shown. -/
def jsonText (s : Snapshot) : Text :=
  (Json.obj ((s.shown.mergeSort fun a b => Text.le a.1 b.1).map fun (name, bundle) =>
    (String.ofList name, bundle.toJson))).pretty

end Snapshot

end CodeGauge
