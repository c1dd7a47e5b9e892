import CodeGauge.FileTree.Basic
import CodeGauge.Workspace.Settings

/-!
# The sources of a workspace

Reading one source, the other sources in its directory, and all sources below a root.
-/

namespace CodeGauge

/-- Why a metric of a file cannot be computed. -/
inductive MetricError where
  | unreadable (path : Path) (cause : AccessError)
  | noType (path : Path)
  | noDirectory (path : Path)
deriving DecidableEq

namespace MetricError

/-- The wording of an error. -/
def message : MetricError → String
  | unreadable path cause => "cannot read " ++ String.ofList path.display ++ ": " ++ cause.message
  | noType path => "no class or interface declared in " ++ String.ofList path.display
  | noDirectory path => "cannot determine the directory of " ++ String.ofList path.display

end MetricError

namespace Workspace

/-- The extension of sources. -/
def sourceExtension : Text := "java".toList

/-- The text of a source. -/
def read (t : FileTree) (path : Path) : Except MetricError Text :=
  (t.readText path).mapError (.unreadable path)

/-- The directory of a path, as it is spelled; `.` if the path is a mere name. -/
def directory? (path : Path) : Option Path :=
  path.parent?.map fun dir => if dir.bytes.isEmpty then .ofString "." else dir

/-- The other sources in the directory of a path, sorted by name. Links to files count; what is no
file or cannot be read is left out. -/
def siblings (t : FileTree) (path : Path) : Except MetricError (List (Path × Text)) :=
  match directory? path with
  | none => .error (.noDirectory path)
  | some dir =>
    match t.list dir with
    | .error cause => .error (.unreadable dir cause)
    | .ok entries =>
      let others := entries.filter fun e =>
        (dir.join e.1).hasExtension sourceExtension && path.fileName? ≠ some e.1
      .ok ((others.mergeSort fun a b => Bytes.le a.1 b.1).filterMap fun e =>
        (t.readText (dir.join e.1)).toOption.map (dir.join e.1, ·))

/-- The paths of the regular files below a directory, down to the given number of levels. A
directory is opened by its path, and left out if that fails; links are not followed, and directories
with an excluded name are not entered. -/
def filesBelow (t : FileTree) (excluded : List Text) : Nat → Path → List Path
  | 0, _ => []
  | levels + 1, dir =>
    match t.list dir with
    | .error _ => []
    | .ok entries =>
      entries.flatMap fun e =>
        match e.2 with
        | .file _ => [dir.join e.1]
        | .directory =>
          if isExcluded excluded e.1 then [] else filesBelow t excluded levels (dir.join e.1)
        | .link _ => []

/-- All regular files below a root with the given extension, sorted by path. Links are not followed,
the root itself apart, and directories with an excluded name are skipped below the root. -/
def gather (t : FileTree) (root : Path) (extension : Text) (excluded : List Text) : List Path :=
  let found : List Path := match (t.locate .keep root).toOption.bind t.node? with
    | none => []
    | some (.file _) => [root]
    | some _ => filesBelow t excluded t.height root
  (found.filter (·.hasExtension extension)).mergeSort Path.le

end Workspace

end CodeGauge
