import CodeGauge.Text.Basic

/-!
# Lists of type references

A list of supertypes is split at the commas outside angle brackets, and each type reference has a
canonical spelling, in which no white space follows a comma between its arguments.
-/

namespace CodeGauge

namespace TypeList

/-- How deep in brackets a text is behind a character. -/
def behind (depth : Int) (c : Char) : Int :=
  if c = '<' then depth + 1 else if c = '>' then depth - 1 else depth

/-- The pieces between the commas at depth zero, for a text that starts `depth` brackets deep. -/
def pieces : Int → Text → List Text
  | _, [] => [[]]
  | depth, c :: rest =>
    if c = ',' ∧ depth = 0 then [] :: pieces depth rest
    else
      match pieces (behind depth c) rest with
      | [] => [[c]]
      | piece :: more => (c :: piece) :: more

/-- A list without its last item if that item is empty. -/
def dropEmptyLast : List Text → List Text
  | [] => []
  | [last] => if last.isEmpty then [] else [last]
  | item :: items => item :: dropEmptyLast items

/-- The trimmed items of a list of type references; a blank last item is left out. -/
def split (list : Text) : List Text :=
  dropEmptyLast ((pieces 0 list).map Text.trim)

/-- The part of a type reference before its arguments. -/
def base (t : Text) : Text :=
  if t.contains '<' then Text.trim (t.takeWhile (· != '<')) else t

/-- Where the spelling of type arguments stands. -/
structure Spelling where
  /-- Between two quotes. -/
  quoted : Bool
  /-- After a comma outside quotes, with nothing but white space since. -/
  afterComma : Bool
deriving DecidableEq

/-- The canonical spelling of type arguments: white space after a comma is left out. -/
def spell : Spelling → Text → Text
  | _, [] => []
  | st, c :: rest =>
    if c = '"' ∨ c = '\'' then c :: spell { st with quoted := !st.quoted } rest
    else if c = ',' ∧ !st.quoted then c :: spell { st with afterComma := true } rest
    else if isBlank c ∧ st.afterComma ∧ !st.quoted then spell st rest
    else c :: spell { st with afterComma := false } rest

/-- The canonical spelling of a type reference. -/
def canonical (t : Text) : Text :=
  if t.contains '<' then
    Text.trim (t.takeWhile (· != '<')) ++ spell ⟨false, false⟩ (t.dropWhile (· != '<'))
  else t

end TypeList

end CodeGauge
