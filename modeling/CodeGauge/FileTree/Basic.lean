import CodeGauge.Path.Basic

/-!
# File trees

A file tree holds files, directories and symbolic links, each at its location: the names that lead
to it from the root. Paths are looked up by walking down from the root or from the working
directory, and links on the way are followed.

Not all that is there can be used. A tree also holds what is refused, be it for want of a permission
or because the disk fails: to look names up in a directory, or to read a file or list a directory.
-/

namespace CodeGauge

/-- The names that lead from the root to a place. -/
abbrev Location := List Bytes

/-- What stands at a location. -/
inductive Node where
  | file (bytes : ByteArray)
  | directory
  | link (target : Bytes)

/-- What is asked of the node at a location: to look a name up in it, or to read it, which for a
directory is to list it. -/
inductive Request where
  | search
  | read
deriving DecidableEq

/-- A request that is refused, with the wording of the reason. -/
structure Refusal where
  place : Location
  request : Request
  wording : String
deriving DecidableEq

/-- Why a file cannot be read. -/
inductive AccessError where
  | missing
  | notDirectory
  | isDirectory
  | nameTooLong
  | linkLoop
  | holdsNul
  | notText
  | refused (wording : String)
deriving DecidableEq

namespace AccessError

/-- The wording of an error. -/
def message : AccessError → String
  | missing => "No such file or directory (os error 2)"
  | notDirectory => "Not a directory (os error 20)"
  | isDirectory => "Is a directory (os error 21)"
  | nameTooLong => "File name too long (os error 36)"
  | linkLoop => "Too many levels of symbolic links (os error 40)"
  | holdsNul => "file name contained an unexpected NUL byte"
  | notText => "stream did not contain valid UTF-8"
  | refused wording => wording

end AccessError

/-- Nodes with their locations, the working directory, and what is refused. The root is always
there. -/
structure FileTree where
  nodes : List (Location × Node)
  cwd : Location
  refusals : List Refusal := []

namespace FileTree

/-- The node at a location. -/
def node? (t : FileTree) (loc : Location) : Option Node :=
  if loc.isEmpty then some .directory
  else (t.nodes.find? (·.1 = loc)).map (·.2)

/-- Why a request to the node at a location is refused, if it is. -/
def refusal? (t : FileTree) (loc : Location) (request : Request) : Option String :=
  (t.refusals.find? fun r => r.place = loc ∧ r.request = request).map (·.wording)

/-- The number of levels of a tree: the length of its longest location. -/
def height (t : FileTree) : Nat := t.nodes.foldr (fun e n => Nat.max e.1.length n) 0

/-- Names have at most this many bytes. -/
def maxNameBytes : Nat := 255

/-- Paths that are looked up have at most this many bytes. -/
def maxPathBytes : Nat := 4095

/-- The byte that stands in no path. -/
def nul : UInt8 := 0

/-- Whether bytes can name a file in a directory. -/
def isName (t : Bytes) : Bool :=
  !Path.isIdle t && t ≠ [Path.dot, Path.dot] && !t.contains Path.sep && !t.contains nul
    && t.length ≤ maxNameBytes

/-- A tree as a disk can hold it: no location is there twice, every name can name a file, everything
lies in a directory, and the working directory is one. -/
structure WellFormed (t : FileTree) : Prop where
  distinct : (t.nodes.map (·.1)).Nodup
  named : ∀ e ∈ t.nodes, e.1 ≠ [] ∧ ∀ n ∈ e.1, isName n
  inDirectory : ∀ e ∈ t.nodes, t.node? e.1.dropLast = some .directory
  cwd_directory : t.node? t.cwd = some .directory

/-- What is done with a link that the last name of a path leads to: it is followed or taken as it
is. -/
inductive LastName where
  | follow
  | keep
deriving DecidableEq

/-- Walks from a location along segments of a path, following at most `links` links. Whatever is
walked through, even by an empty segment, has to be a directory, and every other segment is looked
up in it, if that is not refused. Names that are too long are not looked for. -/
def walk (t : FileTree) (last : LastName) (links : Nat) (loc : Location) (todo : List Bytes) :
    Except AccessError Location :=
  match todo with
  | [] => .ok loc
  | segment :: rest =>
    match t.node? loc with
    | none => .error .missing
    | some .directory =>
      if segment.isEmpty then walk t last links loc rest
      else
        match t.refusal? loc .search with
        | some wording => .error (.refused wording)
        | none =>
          if Path.isIdle segment then walk t last links loc rest
          else if segment = [Path.dot, Path.dot] then walk t last links loc.dropLast rest
          else if maxNameBytes < segment.length then .error .nameTooLong
          else
            match t.node? (loc ++ [segment]) with
            | none => .error .missing
            | some (.link target) =>
              if last = .keep ∧ rest = [] then .ok (loc ++ [segment])
              else
                match links with
                | 0 => .error .linkLoop
                | n + 1 =>
                  walk t last n (if (Path.mk target).isAbsolute then [] else loc)
                    (Path.segments target ++ rest)
            | some _ => walk t last links (loc ++ [segment]) rest
    | some _ => .error .notDirectory
termination_by (links, todo.length)

/-- The number of links that are followed before a walk is given up. -/
def maxLinks : Nat := 40

/-- The location where the walk along a path starts. -/
def startOf (t : FileTree) (p : Path) : Location := if p.isAbsolute then [] else t.cwd

/-- The location that a path of any length leads to. -/
def trace (t : FileTree) (last : LastName) (p : Path) : Except AccessError Location :=
  if p.bytes.contains nul then .error .holdsNul
  else if p.bytes.isEmpty then .error .missing
  else t.walk last maxLinks (t.startOf p) (Path.segments p.bytes)

/-- The location that a path leads to. -/
def locate (t : FileTree) (last : LastName) (p : Path) : Except AccessError Location :=
  if maxPathBytes < p.bytes.length ∧ ¬p.bytes.contains nul then .error .nameTooLong
  else t.trace last p

/-- The text that bytes encode in UTF-8. -/
def decode? (bytes : ByteArray) : Option Text :=
  (String.fromUTF8? bytes).map String.toList

/-- The text of the file at a location. -/
def textAt (t : FileTree) (loc : Location) : Except AccessError Text :=
  match t.node? loc, t.refusal? loc .read with
  | none, _ => .error .missing
  | some _, some wording => .error (.refused wording)
  | some (.file bytes), none =>
    match decode? bytes with
    | some text => .ok text
    | none => .error .notText
  | some _, none => .error .isDirectory

/-- The text of the file that a path leads to. -/
def readText (t : FileTree) (p : Path) : Except AccessError Text :=
  (t.locate .follow p).bind t.textAt

/-- What stands in the directory at a location, with its names. -/
def entriesAt (t : FileTree) (loc : Location) : List (Bytes × Node) :=
  t.nodes.filterMap fun e =>
    if e.1.dropLast = loc then e.1.getLast?.map (·, e.2) else none

/-- What is listed of the directory at a location. -/
def listAt (t : FileTree) (loc : Location) : Except AccessError (List (Bytes × Node)) :=
  match t.node? loc, t.refusal? loc .read with
  | none, _ => .error .missing
  | some .directory, some wording => .error (.refused wording)
  | some .directory, none => .ok (t.entriesAt loc)
  | some _, _ => .error .notDirectory

/-- What stands in the directory that a path leads to, with its names. -/
def list (t : FileTree) (p : Path) : Except AccessError (List (Bytes × Node)) :=
  (t.locate .follow p).bind t.listAt

/-- A location as an absolute path. -/
def pathOf (loc : Location) : Path := ⟨Path.sep :: Text.join [Path.sep] loc⟩

/-- The working directory as a path. -/
def cwdPath (t : FileTree) : Path := pathOf t.cwd

/-- Where segments lead from a location before the first name among them, and what is left from it
on. -/
def skipToName : Location → List Bytes → Location × List Bytes
  | loc, [] => (loc, [])
  | loc, segment :: rest =>
    if Path.isIdle segment then skipToName loc rest
    else if segment = [Path.dot, Path.dot] then skipToName loc.dropLast rest
    else (loc, segment :: rest)

/-- The absolute path without links that leads to the same place. It is found name by name, so the
path may have any length; each name is looked up from the root, so that of the working directory
must be searched too. A slash at the end is looked up like a `.`. -/
def canonical (t : FileTree) (p : Path) : Except AccessError Path :=
  if p.bytes.contains nul then .error .holdsNul
  else if p.bytes.isEmpty then .error .missing
  else
    let (start, rest) := skipToName (t.startOf p) (Path.segments p.bytes)
    if rest.isEmpty then .ok (pathOf start)
    else do
      let loc ← t.walk .follow maxLinks []
        (start ++ rest.map fun segment => if segment.isEmpty then [Path.dot] else segment)
      if maxPathBytes < (pathOf loc).bytes.length then .error .nameTooLong else .ok (pathOf loc)

end FileTree

end CodeGauge
