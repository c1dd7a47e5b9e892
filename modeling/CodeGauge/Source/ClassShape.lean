import CodeGauge.Source.Braces
import CodeGauge.Source.Member
import CodeGauge.Source.TypeHeader

/-!
# The shape of a class

`ClassShape.ofSource` cuts a stripped source into instance fields and method bodies, line by line
from the first class header on. Fields count until the first method; methods of one name share one
body. A method is open from its signature to the first line on which its braces are balanced again
and one closes.

While the lines are read, the members are noted in some form (`Notes`). The shape itself is such a
form. A draft of it (`ClassDraft`) finds the method of a line faster, and is what the lines are read
into.
-/

namespace CodeGauge

/-- The instance fields of a class and its methods with their bodies, in order of appearance. -/
structure ClassShape where
  fields : List Text
  methods : List (Text × Text)
deriving DecidableEq

namespace ClassShape

/-- A class with no members. -/
def empty : ClassShape := ⟨[], []⟩

/-- Records a field, unless it is known. -/
def addField (shape : ClassShape) (field : Text) : ClassShape :=
  if shape.fields.contains field then shape
  else { shape with fields := shape.fields ++ [field] }

/-- A line at the end of the body of a method. -/
def extend (name line : Text) (method : Text × Text) : Text × Text :=
  if method.1 = name then (method.1, method.2 ++ (line ++ ['\n'])) else method

/-- Adds a line to the body of a method, which is recorded if it is new. -/
def addLine (shape : ClassShape) (name line : Text) : ClassShape :=
  if shape.methods.any (·.1 = name) then
    { shape with methods := shape.methods.map (extend name line) }
  else { shape with methods := shape.methods ++ [(name, line ++ ['\n'])] }

end ClassShape

/-! ## Drafts -/

/-- Names in a search tree. -/
inductive NameTree where
  | leaf
  | node (left : NameTree) (name : Text) (right : NameTree)

namespace NameTree

/-- Whether a name is in a tree. -/
def contains (name : Text) : NameTree → Bool
  | leaf => false
  | node left here right =>
    if name = here then true
    else if Text.le name here then left.contains name else right.contains name

/-- A tree with one more name. -/
def insert (name : Text) : NameTree → NameTree
  | leaf => node leaf name leaf
  | node left here right =>
    if name = here then node left here right
    else if Text.le name here then node (left.insert name) here right
    else node left here (right.insert name)

end NameTree

/-- A class that is being read: its methods with the latest first, and the tree of their names.
These are reversed in the tree, since the names of a class are often alike at their start. -/
structure ClassDraft where
  fields : List Text
  latest : List (Text × Text)
  names : NameTree

namespace ClassDraft

/-- A draft with no members. -/
def empty : ClassDraft := ⟨[], [], .leaf⟩

/-- The shape that a draft is one of. -/
def shape (draft : ClassDraft) : ClassShape := ⟨draft.fields, draft.latest.reverse⟩

/-- Records a field, unless it is known. -/
def addField (draft : ClassDraft) (field : Text) : ClassDraft :=
  { draft with fields := (ClassShape.addField draft.shape field).fields }

/-- Adds a line to the body of a method. Mostly that is the latest one. -/
def addLine (draft : ClassDraft) (name line : Text) : ClassDraft :=
  match draft.latest with
  | (last, body) :: before =>
    if last = name then { draft with latest := (last, body ++ (line ++ ['\n'])) :: before }
    else if draft.names.contains name.reverse then
      { draft with latest := (last, body) :: before.map (ClassShape.extend name line) }
    else
      { draft with
        latest := (name, line ++ ['\n']) :: (last, body) :: before
        names := draft.names.insert name.reverse }
  | [] =>
    { draft with latest := [(name, line ++ ['\n'])], names := draft.names.insert name.reverse }

end ClassDraft

/-! ## Reading -/

/-- A form in which the members of a class are noted. -/
class Notes (σ : Type) where
  /-- Whether no method has been noted yet. -/
  noMethod : σ → Bool
  /-- Notes a field. -/
  addField : σ → Text → σ
  /-- Adds a line to the body of a method. -/
  addLine : σ → Text → Text → σ

instance : Notes ClassShape :=
  ⟨fun shape => shape.methods.isEmpty, ClassShape.addField, ClassShape.addLine⟩

instance : Notes ClassDraft :=
  ⟨fun draft => draft.latest.isEmpty, ClassDraft.addField, ClassDraft.addLine⟩

namespace ClassShape

/-- A method that has begun and not ended, with the depth of its braces. -/
structure OpenMethod where
  name : Text
  depth : Int
deriving DecidableEq

/-- What has been read of a class, in the form in which it is noted, and the open method. -/
structure Progress (σ : Type) where
  shape : σ
  current : Option OpenMethod
deriving DecidableEq

variable {σ : Type} [Notes σ]

/-- Whether a line that brings the depth to the given one ends the method. -/
def ends (depth : Int) (braces : Braces) : Bool := depth ≤ 0 && 0 < braces.closing

/-- Reads a line of an open method. -/
def readBody (p : Progress σ) (method : OpenMethod) (line : Text) : Progress σ :=
  let braces := Braces.ofLine line
  let depth := method.depth + braces.change
  { shape := Notes.addLine p.shape method.name line
    current := if ends depth braces then none else some { method with depth } }

/-- Reads a line on which a method may begin. -/
def readSignature (p : Progress σ) (line : Text) : Progress σ :=
  match Member.method? line with
  | none => p
  | some name => readBody p ⟨name, 0⟩ line

/-- Reads a line of a class. -/
def readLine (p : Progress σ) (line : Text) : Progress σ :=
  match p.current with
  | some method => readBody p method line
  | none =>
    if Notes.noMethod p.shape then
      match Member.field? line with
      | some field => { p with shape := Notes.addField p.shape field }
      | none => readSignature p line
    else readSignature p line

/-- The lines after the first class header. -/
def afterHeader (lines : List Text) : List Text :=
  (lines.dropWhile fun line => !TypeHeader.classLine.occursIn line).drop 1

/-- The shape of the first class of a stripped source. -/
def ofSource (source : Text) : ClassShape :=
  ((afterHeader (Text.trimmedLines source)).foldl readLine ⟨ClassDraft.empty, none⟩).shape.shape

end ClassShape

end CodeGauge
