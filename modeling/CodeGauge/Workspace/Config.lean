import CodeGauge.FileTree.Basic
import CodeGauge.Toml.Reader
import CodeGauge.Workspace.Settings

/-!
# The configuration of a workspace

A workspace may hold a configuration file that changes its settings. Settings that the file does not
mention keep their defaults, and unknown ones are ignored as long as their numbers can be read; a
file that cannot be read, or that gives a setting a value of the wrong type, is ignored as a whole.
-/

namespace CodeGauge

namespace Toml

/-- The fields of a table of settings, if all numbers in those that have none of the given names can
be read. -/
def Fields.sound? (names : List Text) (fields : Fields) : Option Fields :=
  if fields.all fun field => names.contains field.1 || field.2.isReadable then some fields else none

/-- A group of settings: a table, or a list of its values in the given order, where further values
are not looked at. A moment is a group without any of them. -/
def group? (names : List Text) : Toml → Option Fields
  | table _ fields => Fields.sound? names fields
  | arr items | tables items => some (names.zip items)
  | moment _ => some []
  | _ => none

/-- A time in milliseconds, which fits in 64 bits. -/
def millis? : Toml → Option Nat
  | int n => if 0 ≤ n ∧ n < Int.pow 2 64 then some n.toNat else none
  | _ => none

/-- The characters of a string. -/
def str? : Toml → Option Text
  | str s => some s
  | _ => none

/-- The strings of an array. -/
def strings? : Toml → Option (List Text)
  | arr items | tables items => items.mapM str?
  | _ => none

/-- The value of a field in a given reading, or a default if there is no such field. -/
def Fields.readOr {α : Type} (fields : Fields) (key : String) (read? : Toml → Option α) (dflt : α) :
    Option α :=
  match fields.get? key.toList with
  | some value => read? value
  | none => some dflt

end Toml

namespace Settings

/-- The settings of a document. -/
def ofToml? (fields : Toml.Fields) : Option Settings := do
  let fields ← fields.sound? ["cache".toList, "workspace".toList]
  let cache ← fields.readOr "cache"
    (Toml.group? ["debounce_ms".toList, "freshness_ms".toList]) []
  let workspace ← fields.readOr "workspace"
    (Toml.group? ["excluded_dirs".toList, "extension".toList]) []
  let debounce ← cache.readOr "debounce_ms" Toml.millis? default.debounce
  let freshness ← cache.readOr "freshness_ms" Toml.millis? default.freshness
  let excluded ← workspace.readOr "excluded_dirs" Toml.strings? default.excluded
  let extension ← workspace.readOr "extension" Toml.str? default.extension
  return { debounce, freshness, extension, excluded }

/-- Where the configuration of a workspace lies. -/
def configPath (root : Path) : Path :=
  root.joinAll [utf8 ".archmetrics", utf8 "config.toml"]

/-- The settings of a workspace, as they are written. -/
def load (t : FileTree) (root : Path) : Settings :=
  match t.readText (configPath root) with
  | .ok text => ((Toml.parse? text).bind ofToml?).getD default
  | .error _ => default

/-- The settings with an extension that does not start with a dot. -/
def dotless (s : Settings) : Settings := { s with extension := s.extension.dropWhile (· == '.') }

end Settings

end CodeGauge
