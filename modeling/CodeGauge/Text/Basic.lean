/-!
# Texts

A text is the list of its characters. This module holds what the rest of the library needs to cut
texts up: white space and trimming, lines, and the pieces between separators.
-/

namespace CodeGauge

/-- A text is the list of its characters. -/
abbrev Text := List Char

/-- White space: the Unicode characters with the property White_Space. -/
def isBlank (c : Char) : Bool :=
  c == ' ' || (0x09 ≤ c.toNat && c.toNat ≤ 0x0d) || c.toNat == 0x85 || c.toNat == 0xa0
    || c.toNat == 0x1680 || (0x2000 ≤ c.toNat && c.toNat ≤ 0x200a) || c.toNat == 0x2028
    || c.toNat == 0x2029 || c.toNat == 0x202f || c.toNat == 0x205f || c.toNat == 0x3000

namespace Text

/-- The text without the white space at its start. -/
def trimStart (t : Text) : Text :=
  t.dropWhile isBlank

/-- The text without the white space at its end. -/
def trimEnd (t : Text) : Text :=
  (t.reverse.dropWhile isBlank).reverse

/-- The text without the white space at either end. -/
def trim (t : Text) : Text :=
  trimEnd (trimStart t)

/-- The pieces of a text, or of any other list, between the separators: `k` separators give `k + 1`
pieces. -/
def splitWhere {α : Type} (isSep : α → Bool) : List α → List (List α)
  | [] => [[]]
  | c :: rest =>
    if isSep c then [] :: splitWhere isSep rest
    else match splitWhere isSep rest with
      | [] => [[c]]
      | piece :: pieces => (c :: piece) :: pieces

/-- The maximal runs of characters other than white space. -/
def words (t : Text) : List Text :=
  (splitWhere isBlank t).filter (!·.isEmpty)

/-- A line without the carriage return that belongs to its line end. -/
def dropReturn (line : Text) : Text :=
  if line.getLast? = some '\r' then line.dropLast else line

/-- From the pieces between newlines to lines: every piece but the last was closed by a newline, and
an empty last piece is no line. -/
def closeLines : List Text → List Text
  | [] => []
  | [last] => if last.isEmpty then [] else [last]
  | piece :: pieces => dropReturn piece :: closeLines pieces

/-- The lines of a text. A line ends in a newline, with or without a carriage return before it. -/
def lines (t : Text) : List Text :=
  closeLines (splitWhere (· == '\n') t)

/-- The lines of a text, each without the white space at its ends. -/
def trimmedLines (t : Text) : List Text := (lines t).map trim

/-- The text from the first occurrence of a character on, and what stands before it. -/
def splitAtChar (c : Char) (t : Text) : Text × Text :=
  t.span (· != c)

/-- Whether a text occurs in another one. -/
def occursIn (part : Text) : Text → Bool
  | [] => part.isEmpty
  | c :: rest => part.isPrefixOf (c :: rest) || occursIn part rest

theorem occursIn_iff {part t : Text} : occursIn part t = true ↔ part <:+: t := by
  induction t with
  | nil => simp [occursIn]
  | cons c rest ih => simp [occursIn, ih, List.infix_cons_iff]

/-- Texts or other lists one after the other, with a separator in between. -/
def join {α : Type} (sep : List α) (parts : List (List α)) : List α :=
  List.intercalate sep parts

/-- Order by code points, which is also the order of the encoded bytes. -/
def le : Text → Text → Bool
  | [], _ => true
  | _ :: _, [] => false
  | a :: as, b :: bs => a.toNat < b.toNat || (a == b && le as bs)

end Text

end CodeGauge
