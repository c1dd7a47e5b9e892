import CodeGauge.Json.Printer
import CodeGauge.Path.Basic
import CodeGauge.Source.Stripped
import CodeGauge.Source.TypeHeader

/-!
# The type hierarchy

Which types a set of sources declares, and which of them extends or implements which.
-/

namespace CodeGauge

/-- How a type relates to one of its supertypes. -/
inductive RelationKind where
  | extension
  | implementation
deriving DecidableEq

namespace RelationKind

/-- The keyword of a relation. -/
def keyword : RelationKind → String
  | extension => "extends"
  | implementation => "implements"

/-- The arrow of a relation in drawings. -/
def arrow : RelationKind → String
  | extension => "->"
  | implementation => "-|>"

end RelationKind

/-- A type, one of its supertypes, and how they relate. -/
structure Relation where
  source : Text
  target : Text
  kind : RelationKind
deriving DecidableEq

/-- A declared type and the file that declares it. -/
structure DeclaredType where
  file : Path
  decl : TypeDecl
deriving DecidableEq

/-- Declared types and the relations between types, in order of appearance. -/
structure Hierarchy where
  types : List DeclaredType
  relations : List Relation
deriving DecidableEq

namespace Hierarchy

/-- A hierarchy without types. -/
def empty : Hierarchy := ⟨[], []⟩

/-- The relations of a declared type: first to what it extends, then to what it implements. -/
def relationsOf (d : TypeDecl) : List Relation :=
  d.extended.map (⟨d.name, ·, .extension⟩) ++ d.implemented.map (⟨d.name, ·, .implementation⟩)

/-- Adds the types of a source. -/
def addSource (h : Hierarchy) (file : Path) (source : Text) : Hierarchy :=
  let decls := TypeHeader.declarations (Source.stripped source)
  { types := h.types ++ decls.map (⟨file, ·⟩)
    relations := h.relations ++ decls.flatMap relationsOf }

/-- Whether there is nothing to draw. -/
def isEmpty (h : Hierarchy) : Bool := h.types.isEmpty && h.relations.isEmpty

/-- What is said of an empty hierarchy. -/
def emptyNotice : String :=
  "// No classes or relationships found.\n// Make sure there are valid Java files in the project.\n"

/-- The line for a type. -/
def typeLine (t : DeclaredType) : Text :=
  t.decl.kind.keyword.toList ++ ' ' :: t.decl.name

/-- The line for a relation. -/
def relationLine (r : Relation) : Text :=
  r.source ++ ' ' :: r.kind.arrow.toList ++ ' ' :: r.target

/-- The line with the two counts. -/
def summaryLine (h : Hierarchy) : Text :=
  "// ".toList ++ digitsText h.types.length ++ " types, ".toList ++ digitsText h.relations.length
    ++ " relations".toList

/-- A hierarchy as text: a line for each type, one for each relation, and a summary. -/
def render (h : Hierarchy) : Text :=
  if h.isEmpty then emptyNotice.toList
  else
    (h.types.map typeLine ++ h.relations.map relationLine ++ [h.summaryLine]).flatMap
      fun l => l ++ ['\n']

/-- A list of names as JSON. -/
def namesJson (names : List Text) : Json := .arr (names.map fun n => .str (String.ofList n))

/-- A declared type as JSON, if the path of its file is a text. -/
def typeJson? (t : DeclaredType) : Option Json :=
  t.file.bytes.text?.map fun file =>
    .obj [("file", .str (String.ofList file)), ("kind", .str t.decl.kind.keyword),
      ("name", .str (String.ofList t.decl.name)), ("extends", namesJson t.decl.extended),
      ("implements", namesJson t.decl.implemented)]

/-- A relation as JSON. -/
def relationJson (r : Relation) : Json :=
  .obj [("from", .str (String.ofList r.source)), ("to", .str (String.ofList r.target)),
    ("kind", .str r.kind.keyword)]

/-- A hierarchy as JSON, if the paths in it are texts. -/
def toJson? (h : Hierarchy) : Option Json :=
  (h.types.mapM typeJson?).map fun types =>
    .obj [("types", .arr types), ("relations", .arr (h.relations.map relationJson))]

end Hierarchy

end CodeGauge
