import CodeGauge.CommandLine.Arguments
import CodeGauge.Coordinator.Session
import CodeGauge.Workspace.Config
import CodeGauge.Workspace.Relations

/-!
# Running commands

Every command is a function from the world to what it writes. A scan warms up a coordinator, waits
until it is idle and reports its cache.
-/

namespace CodeGauge

namespace CommandLine

/-- What a command writes, and its exit code. -/
structure Outcome where
  code : Nat
  stdout : Text
  stderr : Text
deriving DecidableEq

/-- A command that succeeds and has nothing to say besides its result. -/
def Outcome.success (stdout : Text) : Outcome := ⟨0, stdout, []⟩

/-- The line that names the version. -/
def versionLine : String := "archmetrics 0.3.0\n"

/-- What is said of arguments that make no sense. -/
def usageNotice : String :=
  "Usage: archmetrics [OPTIONS] <analyze FILE | scan [ROOT] | watch [ROOT] | relations [ROOT]>\n"

/-- The settings of a workspace, with the times that were given as arguments. -/
def settings (w : World) (overrides : Overrides) (root : Path) : Settings :=
  let s := (Settings.load w.tree root).dotless
  { s with
    debounce := overrides.debounce.getD s.debounce
    freshness := overrides.freshness.getD s.freshness }

/-- A workspace that cannot be opened. -/
def cannotOpen (root : Path) (cause : AccessError) : Outcome :=
  ⟨1, [], "[archmetrics] Error: cannot open workspace ".toList ++ root.display ++ ": ".toList
    ++ cause.message.toList ++ ['\n']⟩

/-- Runs a command on the workspace at a root. -/
def withRoot (w : World) (root : Path) (body : Path → Outcome) : Outcome :=
  match w.tree.canonical root with
  | .ok path => body path
  | .error cause => cannotOpen root cause

/-- The report on one file, measured at once. -/
def analysis (file : Path) (b : Bundle) (json verbose : Bool) : Text :=
  if json then b.jsonText file ++ ['\n']
  else if verbose then Bundle.title file ++ b.render true
  else b.reportBlock file

/-- Measures one file. -/
def analyze (w : World) (overrides : Overrides) (file : Path) (json verbose : Bool) : Outcome :=
  let c := Coordinator.new (settings w overrides (.ofString "."))
  match (c.force w file).1 with
  | some b => .success (analysis file b json verbose)
  | none => ⟨1, [], "[archmetrics] Error: coordinator already shut down\n".toList⟩

/-- The cache of a coordinator that has warmed up a workspace and become idle. -/
def scanned (w : World) (overrides : Overrides) (root : Path) : Snapshot :=
  let warm := ((Session.new w (settings w overrides root)).step (.warmUp root)).2
  (warm.step .waitIdle).2.coordinator.cache

/-- Measures all files of a workspace. -/
def scan (w : World) (overrides : Overrides) (root : Path) (json verbose : Bool) : Outcome :=
  let s := scanned w overrides root
  if json then .success (Snapshot.jsonText s ++ ['\n'])
  else ⟨0, Snapshot.text s verbose, digitsText s.length ++ " files analyzed\n".toList⟩

/-- The notice that a workspace is watched. -/
def watching (root : Path) : Outcome :=
  ⟨0, [], "Watching ".toList ++ root.display ++ " (Ctrl+C to exit)\n".toList⟩

/-- Shows the type hierarchy of a workspace. -/
def relations (w : World) (overrides : Overrides) (root : Path) (json : Bool) : Outcome :=
  let s := settings w overrides root
  let h := Hierarchy.ofWorkspace w.tree root s.extension s.excluded
  if json then
    match h.toJson? with
    | some j => .success (j.pretty ++ ['\n'])
    | none => ⟨1, [], "[archmetrics] Error: path contains invalid UTF-8 characters\n".toList⟩
  else .success h.render

/-- Runs a command. Of `watch` this is the start; the watching itself never ends. -/
def run (w : World) (i : Invocation) : Outcome :=
  match i.command with
  | .analyze file json verbose => analyze w i.overrides file json verbose
  | .scan root json verbose => withRoot w root fun r => scan w i.overrides r json verbose
  | .watch root => withRoot w root watching
  | .relations root json => withRoot w root fun r => relations w i.overrides r json

/-- What is done instead of running a command. -/
def stopped : Stop → Outcome
  | .usage => ⟨2, [], usageNotice.toList⟩
  | .version => .success versionLine.toList

/-- Reads the arguments and runs the command. -/
def execute (w : World) (args : List Text) : Outcome :=
  match readArguments args with
  | .ok invocation => run w invocation
  | .error stop => stopped stop

end CommandLine

end CodeGauge
