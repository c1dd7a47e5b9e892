import CodeGauge.CommandLine.Watch
import Std.Time.DateTime.Timestamp

/-!
# The program

Reads from the disk the part of the file tree that a command looks at, runs the command, and writes
what it answers.
-/

namespace CodeGauge

namespace Disk

/-- Notes a node, unless its location is known already. -/
def note (t : FileTree) (loc : Location) (node : Node) : FileTree :=
  if (t.node? loc).isSome then t else { t with nodes := (loc, node) :: t.nodes }

/-- Notes all directories on the way to a location. -/
def noteWay (t : FileTree) (loc : Location) : FileTree :=
  (List.range loc.length).foldl (fun t n => note t (loc.take n) .directory) t

/-- The wording of an error of the operating system. -/
def wording : IO.Error → String
  | .permissionDenied _ code details | .otherError code details | .hardwareFault code details =>
    details ++ " (os error " ++ toString code ++ ")"
  | e => toString e

/-- Notes that a request is refused. -/
def noteRefusal (t : FileTree) (loc : Location) (request : Request) (e : IO.Error) : FileTree :=
  { t with refusals := ⟨loc, request, wording e⟩ :: t.refusals }

/-- A location as it is told to the operating system, which takes texts only. -/
def spelled (loc : Location) : String := String.ofList (FileTree.pathOf loc).display

/-- The location that an absolute path without links names. -/
def located (path : String) : Location :=
  (Path.segments (utf8 path)).filter (!Path.isIdle ·)

/-- Notes the file at a location, and whether it can be read. -/
def noteFile (t : FileTree) (loc : Location) : IO FileTree := do
  let t := noteWay t loc
  try
    let bytes ← IO.FS.readBinFile (spelled loc)
    return note t loc (.file bytes)
  catch e => return noteRefusal (note t loc (.file .empty)) loc .read e

/-- Notes what stands at a location: a file, a directory, or a link with the file or directory that
it leads to. A link that leads nowhere is left out. Gives the location that it leads to. -/
def noteAt (t : FileTree) (loc : Location) : IO (FileTree × Option Location) := do
  try
    let parent ← IO.FS.realPath (spelled loc.dropLast)
    let entry := parent / String.ofList (loc.getLast?.getD []).shown
    match (← entry.symlinkMetadata).type with
    | .dir => return (note (noteWay t loc) loc .directory, some loc)
    | .file => return (← noteFile t loc, some loc)
    | .symlink =>
      let real ← IO.FS.realPath entry
      let target := located real.toString
      let t := note (noteWay t loc) loc (.link (utf8 real.toString))
      match (← real.symlinkMetadata).type with
      | .dir => return (note (noteWay t target) target .directory, some target)
      | .file => return (← noteFile t target, some target)
      | _ => return (t, none)
    | _ => return (t, none)
  catch
    | e@(.permissionDenied ..) => return (noteRefusal t loc.dropLast .search e, none)
    | _ => return (t, none)

/-- Notes what lies on a path, from a location on. -/
def notePath (t : FileTree) (loc : Location) : List Bytes → IO FileTree
  | [] => return t
  | segment :: rest => do
    if Path.isIdle segment then notePath t loc rest
    else if segment = [Path.dot, Path.dot] then notePath t loc.dropLast rest
    else
      match ← noteAt t (loc ++ [segment]) with
      | (t, some next) => notePath t next rest
      | (t, none) => return t

/-- Notes what lies in the directory at a location and, as far as `descend` allows, in the
directories below it. -/
partial def noteBelow (t : FileTree) (loc : Location) (descend : Bytes → Bool) : IO FileTree := do
  try
    let dir ← IO.FS.realPath (spelled loc)
    let mut t := t
    for entry in ← dir.readDir do
      let place := loc ++ [utf8 entry.fileName]
      let (more, target) ← noteAt t place
      t := more
      if target = some place && descend (utf8 entry.fileName) then
        t ← noteBelow t place descend
    return t
  catch e => return noteRefusal t loc .read e

/-- The working directory, with nothing noted but the directories on the way to it. -/
def here : IO FileTree := do
  let cwd := located (← IO.FS.realPath ".").toString
  return note (noteWay { nodes := [], cwd } cwd) cwd .directory

/-- Notes what lies on a path that may be relative. -/
def noteSpelled (t : FileTree) (path : Path) : IO FileTree :=
  notePath t (t.startOf path) (Path.segments path.bytes)

/-- The time of day. -/
def wall : IO Instant := do
  return Instant.ofNanos (← Std.Time.Timestamp.now).toNanosecondsSinceUnixEpoch.val.toNat

/-- The world with the given tree. -/
def world (tree : FileTree) : IO World := return ⟨tree, ← IO.monoMsNow, ← wall⟩

/-- The world for a file that is measured. -/
def worldOfFile (file : Path) : IO World := do
  let t ← noteSpelled (← here) file
  let t ← noteSpelled t (Settings.configPath (.ofString "."))
  match t.locate .follow ((Workspace.directory? file).getD (.ofString "/")) with
  | .ok loc => world (← noteBelow t loc fun _ => false)
  | .error _ => world t

/-- The world for a workspace. -/
def worldOfRoot (root : Path) : IO World := do
  let t ← noteSpelled (← here) root
  match t.locate .follow root with
  | .error _ => world t
  | .ok loc =>
    let real := FileTree.pathOf loc
    let t ← noteSpelled t (Settings.configPath real)
    let excluded := (Settings.load t real).excluded
    let descend (name : Bytes) : Bool := !Workspace.isExcluded excluded name
    let t ← noteBelow t loc.dropLast fun _ => false
    world (← noteBelow t loc descend)

end Disk

open CommandLine

/-- Writes a text and hands it over at once. -/
def write (stream : IO.FS.Stream) (t : Text) : IO Unit := do
  stream.putStr (String.ofList t)
  stream.flush

/-- Looks at a workspace until the program is interrupted. -/
partial def keepWatching (root : Path) (s : Session) : IO Unit := do
  IO.sleep 200
  let (stored, s) := look s (← Disk.worldOfRoot root) root
  for (path, bundle) in stored do
    write (← IO.getStdout) (updateReport path bundle)
  keepWatching root s

/-- The world that a command looks at. -/
def worldOf : Command → IO World
  | .analyze file _ _ => Disk.worldOfFile file
  | .scan root _ _ => Disk.worldOfRoot root
  | .watch root => Disk.worldOfRoot root
  | .relations root _ => Disk.worldOfRoot root

end CodeGauge

open CodeGauge CommandLine in
/-- The program. -/
def main (args : List String) : IO UInt32 := do
  let answer (out : Outcome) : IO UInt32 := do
    write (← IO.getStdout) out.stdout
    write (← IO.getStderr) out.stderr
    return out.code.toUInt32
  match readArguments (args.map String.toList) with
  | .error stop => answer (stopped stop)
  | .ok invocation =>
    let w ← worldOf invocation.command
    let code ← answer (run w invocation)
    match invocation.command with
    | .watch root =>
      match w.tree.canonical root with
      | .ok real =>
        keepWatching real (startWatching w invocation.overrides real)
        return code
      | .error _ => return code
    | _ => return code
