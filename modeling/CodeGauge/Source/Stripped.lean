import CodeGauge.Text.Basic

/-!
# Sources without comments and literals

`Source.stripped` removes comments and the contents of string, character and text-block literals,
so that what is left can be read line by line. A literal leaves its two quotes behind, and newlines
inside comments and text blocks stay, so the line count does not change. The text may be malformed:
an open comment or text block runs to the end of the text, an open literal to the end of its line.
-/

namespace CodeGauge

namespace Source

/-- Where in a source a character stands. -/
inductive Region where
  /-- Outside comments and literals. -/
  | code
  /-- In a comment that ends with the line. -/
  | lineComment
  /-- In a block comment; the flag says whether a star came just before. -/
  | blockComment (star : Bool)
  /-- In a literal with this delimiter; the flag says whether the next character is escaped. -/
  | literal (delimiter : Char) (escaped : Bool)
  /-- In a text block, after so many quotes in a row; the flag says whether the next character is
  escaped. -/
  | textBlock (quotes : Nat) (escaped : Bool)
deriving DecidableEq

/-- What is left of a text whose first character stands in the given region. -/
def strip : Region → Text → Text
  | _, [] => []
  | .code, '/' :: '/' :: rest => strip .lineComment rest
  | .code, '/' :: '*' :: rest => strip (.blockComment false) rest
  | .code, '"' :: '"' :: '"' :: rest => '"' :: '"' :: strip (.textBlock 0 false) rest
  | .code, '"' :: rest => '"' :: '"' :: strip (.literal '"' false) rest
  | .code, '\'' :: rest => '\'' :: '\'' :: strip (.literal '\'' false) rest
  | .code, c :: rest => c :: strip .code rest
  | .lineComment, c :: rest =>
    if c = '\n' then c :: strip .code rest else strip .lineComment rest
  | .blockComment star, c :: rest =>
    if star && c = '/' then strip .code rest
    else if c = '\n' then c :: strip (.blockComment false) rest
    else strip (.blockComment (c = '*')) rest
  | .literal delimiter escaped, c :: rest =>
    if c = '\n' then c :: strip .code rest
    else if escaped then strip (.literal delimiter false) rest
    else if c = '\\' then strip (.literal delimiter true) rest
    else if c = delimiter then strip .code rest
    else strip (.literal delimiter false) rest
  | .textBlock quotes escaped, c :: rest =>
    if c = '\n' then c :: strip (.textBlock 0 false) rest
    else if escaped then strip (.textBlock 0 false) rest
    else if c = '\\' then strip (.textBlock 0 true) rest
    else if c = '"' then
      if quotes = 2 then strip .code rest else strip (.textBlock (quotes + 1) false) rest
    else strip (.textBlock 0 false) rest

/-- A source without comments and without the contents of its literals. -/
def stripped (source : Text) : Text := strip .code source

end Source

end CodeGauge
