import CodeGauge.Json.Basic
import CodeGauge.Number.Shortest

/-!
# Writing JSON

Values are written on one line, or laid out with two spaces of indentation for each level. A double
is written as its shortest decimal form and always shows a point or an exponent, so it is told
apart from a whole number; what is no number is written as `null`.
-/

namespace CodeGauge

namespace Json

/-- Doubles are positional for decimal exponents from -5 to 15. -/
def decimalLayout : DecimalLayout := ⟨-5, 15⟩

/-- A double as text. -/
def floatText (x : Float) : Text :=
  match Binary.ofFloat x with
  | .nan => "null".toList
  | .infinite _ => "null".toList
  | .finite negative m q =>
    (if negative then ['-'] else []) ++
      if m = 0 then "0.0".toList else (shortest m q).layOut decimalLayout

/-- A whole number as text. -/
def intText (n : Int) : Text :=
  (if n < 0 then ['-'] else []) ++ digitsText n.natAbs

/-- A hexadecimal digit. -/
def hexDigit (n : Nat) : Char :=
  if n < 10 then Char.ofNat (48 + n) else Char.ofNat (87 + n)

/-- A character inside a string: quotes, backslashes and control characters are escaped. -/
def escape (c : Char) : Text :=
  if c = '"' then "\\\"".toList
  else if c = '\\' then "\\\\".toList
  else if c = '\n' then "\\n".toList
  else if c = '\r' then "\\r".toList
  else if c = '\t' then "\\t".toList
  else if c.toNat = 8 then "\\b".toList
  else if c.toNat = 12 then "\\f".toList
  else if c.toNat < 32 then
    "\\u00".toList ++ [hexDigit (c.toNat / 16), hexDigit (c.toNat % 16)]
  else [c]

/-- A string in quotes. -/
def quoted (s : Text) : Text :=
  '"' :: (s.flatMap escape ++ ['"'])

/-- Joins written items with commas. -/
def commaJoin (items : List Text) : Text := Text.join [','] items

mutual

/-- A value on one line. -/
def compact : Json → Text
  | null => "null".toList
  | bool b => (if b then "true" else "false").toList
  | int n => intText n
  | float x => floatText x
  | str s => quoted s.toList
  | arr items => '[' :: (commaJoin (compactItems items) ++ [']'])
  | obj fields => '{' :: (commaJoin (compactFields fields) ++ ['}'])

/-- The items of an array, each on one line. -/
def compactItems : List Json → List Text
  | [] => []
  | item :: items => compact item :: compactItems items

/-- The fields of an object, each on one line. -/
def compactFields : List (String × Json) → List Text
  | [] => []
  | (key, value) :: fields =>
    (quoted key.toList ++ ':' :: compact value) :: compactFields fields

end

/-- A new line with the given indentation. -/
def newline (indent : Nat) : Text := '\n' :: List.replicate indent ' '

/-- Written items between brackets, one to a line. -/
def block (opening closing : Char) (indent : Nat) (items : List Text) : Text :=
  if items.isEmpty then [opening, closing]
  else
    opening :: (newline (indent + 2) ++ Text.join (',' :: newline (indent + 2)) items
      ++ newline indent ++ [closing])

mutual

/-- A value laid out from the given indentation on. -/
def prettyAt : Nat → Json → Text
  | indent, arr items => block '[' ']' indent (prettyItems indent items)
  | indent, obj fields => block '{' '}' indent (prettyFields indent fields)
  | _, null => "null".toList
  | _, bool b => (if b then "true" else "false").toList
  | _, int n => intText n
  | _, float x => floatText x
  | _, str s => quoted s.toList

/-- The items of an array at the given indentation. -/
def prettyItems : Nat → List Json → List Text
  | _, [] => []
  | indent, item :: items => prettyAt (indent + 2) item :: prettyItems indent items

/-- The fields of an object at the given indentation. -/
def prettyFields : Nat → List (String × Json) → List Text
  | _, [] => []
  | indent, (key, value) :: fields =>
    (quoted key.toList ++ ": ".toList ++ prettyAt (indent + 2) value) :: prettyFields indent fields

end

/-- A value laid out over several lines. -/
def pretty (j : Json) : Text := prettyAt 0 j

end Json

end CodeGauge
