import CodeGauge.FileTree.Basic

/-!
# Changing file trees

Files are written, directories and links made, and whatever is there removed. What stands at the
path of a change makes way for the new, be it a link or a whole directory, and missing directories
on the way are made. Nothing is put where a file is in the way or where no such name is possible.
-/

namespace CodeGauge

/-- A change at one path. -/
inductive Edit where
  | write (bytes : ByteArray)
  | makeDirectory
  | makeLink (target : Bytes)
  | remove

namespace FileTree

/-- Puts a node at a location, in place of what is there. Nothing is refused of it. -/
def put (t : FileTree) (loc : Location) (node : Node) : FileTree :=
  { t with
    nodes :=
      if t.nodes.any (·.1 = loc) then t.nodes.map fun e => if e.1 = loc then (loc, node) else e
      else t.nodes ++ [(loc, node)]
    refusals := t.refusals.filter (·.place ≠ loc) }

/-- Whether a location is removed with another one: it is the same or lies below, and it is neither
the working directory nor above it. -/
def goesWith (t : FileTree) (loc other : Location) : Bool :=
  loc.isPrefixOf other && !other.isPrefixOf t.cwd

/-- Removes a location with all that lies below it. The working directory and those above it
stay. -/
def prune (t : FileTree) (loc : Location) : FileTree :=
  { t with
    nodes := t.nodes.filter fun e => !t.goesWith loc e.1
    refusals := t.refusals.filter fun r => !t.goesWith loc r.place }

/-- Makes the directories along segments of a path, from a location on. Gives the tree and the
location of the last directory, or `none` if something else is in the way. -/
def makeDirectories : FileTree → Location → List Bytes → Option (FileTree × Location)
  | t, loc, [] => some (t, loc)
  | t, loc, segment :: rest =>
    if Path.isIdle segment then makeDirectories t loc rest
    else if segment = [Path.dot, Path.dot] then makeDirectories t loc.dropLast rest
    else
      match t.walk .follow maxLinks loc [segment] with
      | .ok next =>
        match t.node? next with
        | some .directory => makeDirectories t next rest
        | _ => none
      | .error .missing =>
        if (t.node? (loc ++ [segment])).isNone ∧ isName segment then
          makeDirectories (t.put (loc ++ [segment]) .directory) (loc ++ [segment]) rest
        else none
      | .error _ => none

/-- Removes what a path leads to, a link as such. -/
def remove (t : FileTree) (p : Path) : FileTree :=
  match t.locate .keep p with
  | .ok loc => t.prune loc
  | .error _ => t

/-- Puts a node where a path leads if nothing is there. -/
def place (t : FileTree) (p : Path) (node : Node) : FileTree :=
  match p.parent?, p.fileName? with
  | some dir, some name =>
    if isName name ∧ p.bytes.length ≤ maxPathBytes then
      match t.makeDirectories (t.startOf p) (Path.segments dir.bytes) with
      | some (made, loc) =>
        if (made.node? (loc ++ [name])).isNone then made.put (loc ++ [name]) node else made
      | none => t
    else t
  | _, _ => t

/-- Whether a link can have a target. -/
def isTarget (target : Bytes) : Bool :=
  !target.isEmpty && !target.contains nul && target.length ≤ maxPathBytes

/-- The tree after a change. -/
def edit (t : FileTree) (p : Path) : Edit → FileTree
  | .write bytes => (t.remove p).place p (.file bytes)
  | .makeDirectory => (t.remove p).place p .directory
  | .makeLink target =>
    if isTarget target then (t.remove p).place p (.link target) else t.remove p
  | .remove => t.remove p

end FileTree

end CodeGauge
