import CodeGauge.Text.Basic

/-!
# TOML documents

A document is a list of statements: headers that open a table or an element of an array of tables,
and assignments to dotted keys. `Toml.build?` makes the table that a list of statements describes.
No key may be assigned twice, and no table may be opened twice; what may still be added to a table
depends on how it came to be.
-/

namespace CodeGauge

/-- How a table came to be: under a header of its own, on the way to a header, on the way to a
dotted key, or written in braces. -/
inductive TableOrigin where
  | header
  | implied
  | dotted
  | inline
deriving DecidableEq

/-- A TOML value. A moment is a date, a time, or both, as it is spelled. A document may hold words
that have the form of a number and stand for none; that is only wrong where such a number is
needed. -/
inductive Toml where
  | str (s : Text)
  | int (n : Int)
  | float (x : Float)
  | noNumber (word : Text)
  | bool (b : Bool)
  | moment (spelling : Text)
  | arr (items : List Toml)
  | tables (elements : List Toml)
  | table (origin : TableOrigin) (fields : List (Text × Toml))

namespace Toml

mutual

/-- Whether every number in a value can be read. -/
def isReadable : Toml → Bool
  | noNumber _ => false
  | arr items | tables items => areReadable items
  | table _ fields => haveReadable fields
  | _ => true

/-- Whether every number in a list of values can be read. -/
def areReadable : List Toml → Bool
  | [] => true
  | item :: items => item.isReadable && areReadable items

/-- Whether every number in the fields of a table can be read. -/
def haveReadable : List (Text × Toml) → Bool
  | [] => true
  | (_, value) :: fields => value.isReadable && haveReadable fields

end

/-- The fields of a table, in order. -/
abbrev Fields := List (Text × Toml)

namespace Fields

/-- The value of a field. -/
def get? (fields : Fields) (key : Text) : Option Toml :=
  (fields.find? (·.1 = key)).map (·.2)

/-- The fields with another value for one of them. -/
def set (fields : Fields) (key : Text) (value : Toml) : Fields :=
  if fields.any (·.1 = key) then fields.map fun e => if e.1 = key then (key, value) else e
  else fields ++ [(key, value)]

end Fields

/-- Assigns a value to a dotted key. The key must be new. The tables on its way must be new, made by
dotted keys, or so far only on the way to a header, and from then on count as made by dotted keys.
The key may also lead through the last element of an array of tables, but not end in it. -/
def assign (value : Toml) : List Text → Fields → Option Fields
  | [], _ => none
  | [key], fields =>
    match fields.get? key with
    | none => some (fields.set key value)
    | some _ => none
  | key :: next :: rest, fields =>
    match fields.get? key with
    | none => (assign value (next :: rest) []).map fun sub => fields.set key (table .dotted sub)
    | some (table origin sub) =>
      if origin = .dotted ∨ origin = .implied then
        (assign value (next :: rest) sub).map fun sub => fields.set key (table .dotted sub)
      else none
    | some (tables elements) =>
      match elements.getLast?, rest with
      | some (table origin sub), _ :: _ =>
        (assign value (next :: rest) sub).map fun sub =>
          fields.set key (tables (elements.dropLast ++ [table origin sub]))
      | _, _ => none
    | some _ => none

/-- Changes the table that a key of a header stands for: a table that is not written in braces, or
the last element of an array of tables. A missing one is made. -/
def changeUnder (key : Text) (change : Fields → Option Fields) (fields : Fields) : Option Fields :=
  match fields.get? key with
  | none => (change []).map fun sub => fields.set key (table .implied sub)
  | some (table origin sub) =>
    if origin = .inline then none
    else (change sub).map fun sub => fields.set key (table origin sub)
  | some (tables elements) =>
    match elements.getLast? with
    | some (table origin sub) =>
      (change sub).map fun sub => fields.set key (tables (elements.dropLast ++ [table origin sub]))
    | _ => none
  | some _ => none

/-- Changes the table that a path of keys leads to. -/
def changeAt (change : Fields → Option Fields) : List Text → Fields → Option Fields
  | [], fields => change fields
  | key :: rest, fields => changeUnder key (changeAt change rest) fields

/-- Opens a table. A table that so far only stood on the way to a header may be opened. -/
def openTable (key : Text) (fields : Fields) : Option Fields :=
  match fields.get? key with
  | none => some (fields.set key (table .header []))
  | some (table .implied sub) => some (fields.set key (table .header sub))
  | some _ => none

/-- Opens the next element of an array of tables. -/
def openElement (key : Text) (fields : Fields) : Option Fields :=
  match fields.get? key with
  | none => some (fields.set key (tables [table .header []]))
  | some (tables elements) => some (fields.set key (tables (elements ++ [table .header []])))
  | some _ => none

/-- A statement of a document. -/
inductive Statement where
  | header (path : List Text)
  | element (path : List Text)
  | assignment (key : List Text) (value : Toml)

/-- The table so far, and the path of the header that is open. -/
structure Draft where
  current : List Text
  fields : Fields

namespace Draft

/-- Opens something at the end of a path, which becomes the open header. -/
def openAt (d : Draft) (path : List Text) (openKey : Text → Fields → Option Fields) :
    Option Draft :=
  path.getLast?.bind fun key =>
    (changeAt (openKey key) path.dropLast d.fields).map fun fields => ⟨path, fields⟩

/-- Adds a statement. -/
def add (d : Draft) : Statement → Option Draft
  | .header path => d.openAt path openTable
  | .element path => d.openAt path openElement
  | .assignment key value =>
    (changeAt (assign value key) d.current d.fields).map fun fields => ⟨d.current, fields⟩

end Draft

/-- The table that a list of statements describes. -/
def build? (statements : List Statement) : Option Fields :=
  (statements.foldlM Draft.add ⟨[], []⟩).map Draft.fields

/-- The table in braces that a list of assignments describes. -/
def inlineTable? (pairs : List (List Text × Toml)) : Option Toml :=
  (pairs.foldlM (fun fields (key, value) => assign value key fields) []).map (table .inline)

end Toml

end CodeGauge
