import CodeGauge.Text.Utf8

/-!
# Settings

How long a save is waited for, how long a bundle stays fresh, and which files are sources.
-/

namespace CodeGauge

/-- The settings of a workspace; times are in milliseconds. -/
structure Settings where
  /-- The time between the last save of a file and its measurement. -/
  debounce : Nat
  /-- Saves of a file whose bundle is younger than this are ignored. -/
  freshness : Nat
  /-- The extension of sources, without a dot. -/
  extension : Text
  /-- The names of directories that are skipped. -/
  excluded : List Text
deriving DecidableEq

namespace Settings

/-- Directories with generated files and tool data. -/
def defaultExcluded : List Text :=
  ["build", "target", "bin", "out", "node_modules", ".git", ".gradle", ".idea", ".settings"].map
    String.toList

/-- The settings of a workspace without a configuration. -/
def default : Settings := ⟨500, 3000, "java".toList, defaultExcluded⟩

end Settings

namespace Workspace

/-- Whether the name of a directory is one of those that are skipped. -/
def isExcluded (excluded : List Text) (name : Bytes) : Bool := excluded.any (·.utf8 = name)

end Workspace

end CodeGauge
