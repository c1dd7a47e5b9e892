import CodeGauge.Json.Basic
import CodeGauge.Number.Reading

/-!
# Reading JSON

`Json.parse?` reads a text that holds one value and nothing else but white space. A whole number
that fits in 64 bits, with or without sign, stays whole; every other number becomes the double that
its leading digits give. Numbers beyond all doubles, lone surrogates in strings and values nested
deeper than `maxDepth` are refused.
-/

namespace CodeGauge

namespace Json

/-- White space between the tokens. -/
def isSpace (c : Char) : Bool := c == ' ' || c == '\n' || c == '\t' || c == '\r'

/-- A text without the white space at its start. -/
def skipSpace (t : Text) : Text := t.dropWhile isSpace

/-- The value of a hexadecimal digit. -/
def hexValue? (c : Char) : Option Nat :=
  if c.isDigit then some (c.toNat - 48)
  else if 'a' ≤ c ∧ c ≤ 'f' then some (c.toNat - 87)
  else if 'A' ≤ c ∧ c ≤ 'F' then some (c.toNat - 55)
  else none

/-- The number written with four hexadecimal digits. -/
def hexUnit? (a b c d : Char) : Option Nat :=
  match hexValue? a, hexValue? b, hexValue? c, hexValue? d with
  | some a, some b, some c, some d => some (((a * 16 + b) * 16 + c) * 16 + d)
  | _, _, _, _ => none

/-- The character that a letter after a backslash stands for. -/
def unescape? (c : Char) : Option Char :=
  if c = '"' ∨ c = '\\' ∨ c = '/' then some c
  else if c = 'b' then some (Char.ofNat 8)
  else if c = 'f' then some (Char.ofNat 12)
  else if c = 'n' then some '\n'
  else if c = 'r' then some '\r'
  else if c = 't' then some '\t'
  else none

/-- Reads a string after its opening quote, up to and with the closing one. -/
def readString : Text → Option (Text × Text)
  | [] => none
  | '"' :: rest => some ([], rest)
  | '\\' :: 'u' :: a :: b :: c :: d :: rest =>
    match hexUnit? a b c d with
    | none => none
    | some unit =>
      if 0xd800 ≤ unit ∧ unit < 0xdc00 then
        match rest with
        | '\\' :: 'u' :: e :: f :: g :: h :: rest' =>
          match hexUnit? e f g h with
          | none => none
          | some low =>
            if 0xdc00 ≤ low ∧ low < 0xe000 then
              (readString rest').map fun (s, more) =>
                (Char.ofNat (0x10000 + (unit - 0xd800) * 0x400 + (low - 0xdc00)) :: s, more)
            else none
        | _ => none
      else if 0xdc00 ≤ unit ∧ unit < 0xe000 then none
      else (readString rest).map fun (s, more) => (Char.ofNat unit :: s, more)
  | '\\' :: c :: rest =>
    match unescape? c with
    | none => none
    | some x => (readString rest).map fun (s, more) => (x :: s, more)
  | c :: rest =>
    if c.toNat < 32 ∨ c = '\\' then none
    else (readString rest).map fun (s, more) => (c :: s, more)

/-- The whole part of a number: no digit may follow a leading zero. -/
def readWhole (t : Text) : Option (Text × Text) :=
  match spanDigits t with
  | ([], _) => none
  | ('0' :: _ :: _, _) => none
  | (ds, rest) => some (ds, rest)

/-- The fraction of a number: a point and at least one digit, or nothing. -/
def readFraction : Text → Option (Text × Text)
  | '.' :: rest =>
    match spanDigits rest with
    | ([], _) => none
    | (ds, more) => some (ds, more)
  | rest => some ([], rest)

/-- The number that its sign, digits and exponent stand for. Without point and exponent it stays
whole if it fits in 64 bits; a negative zero does not. -/
def ofDigits? (negative : Bool) (whole fraction : Text) (exponent : Option Int) : Option Json :=
  let n := readDigits whole
  if fraction.isEmpty ∧ exponent.isNone ∧ negative ∧ 0 < n ∧ n ≤ Nat.pow 2 63 then
    some (int (-(n : Int)))
  else if fraction.isEmpty ∧ exponent.isNone ∧ ¬negative ∧ n < Nat.pow 2 64 then some (int n)
  else (leadingFloat? whole fraction (exponent.getD 0)).map fun x => float (signed negative x)

/-- Reads a number. -/
def readNumber (t : Text) : Option (Json × Text) :=
  let (negative, body) := match t with
    | '-' :: rest => (true, rest)
    | rest => (false, rest)
  (readWhole body).bind fun (whole, afterWhole) =>
  (readFraction afterWhole).bind fun (fraction, afterFraction) =>
  (readExponent afterFraction).bind fun (exponent, rest) =>
    (ofDigits? negative whole fraction exponent).map fun j => (j, rest)

/-- Arrays and objects nest at most this deep. -/
def maxDepth : Nat := 127

mutual

/-- Reads a value. The first number bounds the steps, the second the depth of nesting. -/
def readValue : Nat → Nat → Text → Option (Json × Text)
  | 0, _, _ => none
  | fuel + 1, depth, t =>
    match skipSpace t with
    | 'n' :: 'u' :: 'l' :: 'l' :: rest => some (null, rest)
    | 't' :: 'r' :: 'u' :: 'e' :: rest => some (bool true, rest)
    | 'f' :: 'a' :: 'l' :: 's' :: 'e' :: rest => some (bool false, rest)
    | '"' :: rest => (readString rest).map fun (s, more) => (str (String.ofList s), more)
    | '[' :: rest =>
      if depth = 0 then none
      else match skipSpace rest with
        | ']' :: more => some (arr [], more)
        | _ => (readItems fuel (depth - 1) rest).map fun (items, more) => (arr items, more)
    | '{' :: rest =>
      if depth = 0 then none
      else match skipSpace rest with
        | '}' :: more => some (obj [], more)
        | _ => (readFields fuel (depth - 1) rest).map fun (fields, more) => (obj fields, more)
    | rest => readNumber rest

/-- Reads the items of an array, up to and with the closing bracket. -/
def readItems : Nat → Nat → Text → Option (List Json × Text)
  | 0, _, _ => none
  | fuel + 1, depth, t =>
    (readValue fuel depth t).bind fun (item, rest) =>
      match skipSpace rest with
      | ']' :: more => some ([item], more)
      | ',' :: more => (readItems fuel depth more).map fun (items, last) => (item :: items, last)
      | _ => none

/-- Reads the fields of an object, up to and with the closing brace. -/
def readFields : Nat → Nat → Text → Option (List (String × Json) × Text)
  | 0, _, _ => none
  | fuel + 1, depth, t =>
    match skipSpace t with
    | '"' :: rest =>
      (readString rest).bind fun (key, afterKey) =>
        match skipSpace afterKey with
        | ':' :: afterColon =>
          (readValue fuel depth afterColon).bind fun (value, rest) =>
            match skipSpace rest with
            | '}' :: more => some ([(String.ofList key, value)], more)
            | ',' :: more =>
              (readFields fuel depth more).map fun (fields, last) =>
                ((String.ofList key, value) :: fields, last)
            | _ => none
        | _ => none
    | _ => none

end

/-- Reads a text that holds exactly one value. -/
def parse? (t : Text) : Option Json :=
  match readValue (2 * t.length + 1) maxDepth t with
  | some (j, rest) => if (skipSpace rest).isEmpty then some j else none
  | none => none

end Json

end CodeGauge
