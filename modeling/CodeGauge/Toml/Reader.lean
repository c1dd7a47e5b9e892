import CodeGauge.Toml.Scalar

/-!
# Reading TOML

`Toml.parse?` reads a document into the fields of its top table. Every reader returns what it read
and the rest of the text; a text that breaks a rule of the grammar is refused as a whole.
-/

namespace CodeGauge

namespace Toml

/-! ## Blanks, comments and line ends -/

/-- Blanks within a line. -/
def isGap (c : Char) : Bool := c == ' ' || c == '\t'

/-- A text without the blanks at its start. -/
def skipGap (t : Text) : Text := t.dropWhile isGap

/-- Whether a character may stand in a comment or, apart from quotes, in a string. -/
def isPrintable (c : Char) : Bool := (32 ≤ c.toNat && c.toNat ≠ 127) || c == '\t'

/-- Reads a line end. -/
def newline? : Text → Option Text
  | '\n' :: rest => some rest
  | '\r' :: '\n' :: rest => some rest
  | _ => none

/-- The text after a comment, if one starts here. -/
def skipComment : Text → Text
  | '#' :: rest => rest.dropWhile isPrintable
  | t => t

/-- Reads the end of a line: blanks, an optional comment, and the line end or the end of the
text. -/
def lineEnd? (t : Text) : Option Text :=
  match skipComment (skipGap t) with
  | [] => some []
  | rest => newline? rest

/-- Skips blanks, comments and line ends, in at most the given number of steps. -/
def skipLines : Nat → Text → Text
  | 0, t => t
  | fuel + 1, t =>
    let rest := skipComment (skipGap t)
    match newline? rest with
    | some more => skipLines fuel more
    | none => rest

/-- A text without the blanks, comments and line ends at its start. -/
def skipSpace (t : Text) : Text := skipLines t.length t

/-! ## Strings -/

/-- The character with a given code, if there is one. -/
def charOf? (n : Nat) : Option Char :=
  if n.isValidChar then some (Char.ofNat n) else none

/-- Reads what follows a backslash. -/
def escape? : Text → Option (Char × Text)
  | 'x' :: rest => hex 2 rest
  | 'u' :: rest => hex 4 rest
  | 'U' :: rest => hex 8 rest
  | c :: rest => (([('b', 8), ('t', 9), ('n', 10), ('f', 12), ('r', 13), ('e', 27), ('"', 34),
      ('\\', 92)] : List (Char × Nat)).lookup c).map fun n => (Char.ofNat n, rest)
  | [] => none
where
  /-- The character whose code is written with `count` hexadecimal digits. -/
  hex (count : Nat) (t : Text) : Option (Char × Text) :=
    if t.length < count then none
    else ((ofDigits? 16 (t.take count)).bind charOf?).map fun c => (c, t.drop count)

/-- Reads a string on one line after its opening quote. -/
def readBasic : Nat → Text → Option (Text × Text)
  | 0, _ => none
  | _ + 1, [] => none
  | fuel + 1, c :: rest =>
    if c = '"' then some ([], rest)
    else if c = '\\' then
      (escape? rest).bind fun (x, more) => (readBasic fuel more).map fun (s, last) => (x :: s, last)
    else if isPrintable c then (readBasic fuel rest).map fun (s, last) => (c :: s, last)
    else none

/-- Reads a literal string on one line after its opening quote. -/
def readLiteral (t : Text) : Option (Text × Text) :=
  match t.span fun c => c != '\'' && isPrintable c with
  | (s, '\'' :: rest) => some (s, rest)
  | _ => none

/-- The end of a string over several lines: three quotes, after up to two more that belong to the
string. Gives the number of those and the rest. -/
def closing? (quote : Char) (t : Text) : Option (Nat × Text) :=
  let quotes := (t.takeWhile (· == quote)).length
  if quotes < 3 then none
  else
    let own := min (quotes - 3) 2
    some (own, t.drop (own + 3))

/-- Skips all blanks and line ends. -/
def skipBlankLines : Nat → Text → Text
  | 0, t => t
  | fuel + 1, t =>
    match newline? (skipGap t) with
    | some more => skipBlankLines fuel more
    | none => skipGap t

/-- Reads a string over several lines after its opening quotes. Line ends belong to the string as
they are written, and a backslash at the end of a line takes away all blanks and line ends that
follow. -/
def readLong (quote : Char) : Nat → Text → Option (Text × Text)
  | 0, _ => none
  | fuel + 1, t =>
    match closing? quote t with
    | some (own, rest) => some (List.replicate own quote, rest)
    | none =>
      match t with
      | [] => none
      | c :: rest =>
        if c = '\\' ∧ quote = '"' then
          match newline? (skipGap rest) with
          | some more => readLong quote fuel (skipBlankLines more.length more)
          | none =>
            (escape? rest).bind fun (x, more) =>
              (readLong quote fuel more).map fun (s, last) => (x :: s, last)
        else if isPrintable c ∨ (newline? t).isSome then
          (readLong quote fuel rest).map fun (s, last) => (c :: s, last)
        else none

/-- A text without the line end that it may start with. -/
def dropNewline (t : Text) : Text := (newline? t).getD t

/-- Reads a string of any kind. -/
def readString? (t : Text) : Option (Text × Text) :=
  match t with
  | '"' :: '"' :: '"' :: rest => readLong '"' (t.length + 1) (dropNewline rest)
  | '\'' :: '\'' :: '\'' :: rest => readLong '\'' (t.length + 1) (dropNewline rest)
  | '"' :: rest => readBasic (t.length + 1) rest
  | '\'' :: rest => readLiteral rest
  | _ => none

/-! ## Keys -/

/-- The characters of a key without quotes. -/
def isKeyChar (c : Char) : Bool := c.isAlphanum || c == '_' || c == '-'

/-- Reads one part of a dotted key. -/
def readKeyPart (t : Text) : Option (Text × Text) :=
  match t with
  | '"' :: rest => readBasic (t.length + 1) rest
  | '\'' :: rest => readLiteral rest
  | _ =>
    match t.span isKeyChar with
    | ([], _) => none
    | (key, rest) => some (key, rest)

/-- Reads a dotted key of at most the given number of parts. -/
def readKeyParts : Nat → Text → Option (List Text × Text)
  | 0, _ => none
  | parts + 1, t =>
    (readKeyPart (skipGap t)).bind fun (part, rest) =>
      match skipGap rest with
      | '.' :: more => (readKeyParts parts more).map fun (key, last) => (part :: key, last)
      | more => some ([part], more)

/-- Dotted keys have at most this many parts, and arrays and tables in braces nest at most this
deep. -/
def maxDepth : Nat := 80

/-- Reads a dotted key and the blanks around it. -/
def readKey (t : Text) : Option (List Text × Text) := readKeyParts maxDepth t

/-! ## Values -/

/-- The characters of words: all but blanks, line ends and the signs that values are put together
with. -/
def isWordChar (c : Char) : Bool := !" \t\r\n=,[]\x7b\x7d#".toList.contains c

/-- The word at the start of a text. After a date, a time may follow one blank later. -/
def spanWord (t : Text) : Text × Text :=
  let (word, rest) := t.span isWordChar
  match rest with
  | ' ' :: c :: more =>
    if isDate word ∧ c.isDigit then
      let (time, last) := (c :: more).span isWordChar
      (word ++ ' ' :: time, last)
    else (word, rest)
  | _ => (word, rest)

mutual

/-- Reads a value. The first number bounds the steps, the second the depth of nesting. -/
def readValue : Nat → Nat → Text → Option (Toml × Text)
  | 0, _, _ => none
  | fuel + 1, depth, t =>
    match t with
    | '"' :: _ | '\'' :: _ => (readString? t).map fun (s, rest) => (str s, rest)
    | '[' :: rest =>
      if depth = 0 then none
      else (readItems fuel (depth - 1) rest).map fun (items, more) => (arr items, more)
    | '{' :: rest =>
      if depth = 0 then none
      else (readPairs fuel (depth - 1) rest).bind fun (pairs, more) =>
        (inlineTable? pairs).map fun value => (value, more)
    | _ =>
      let (word, rest) := spanWord t
      (ofWord? word).map fun value => (value, rest)

/-- Reads the items of an array, up to and with the closing bracket. A comma may follow the last. -/
def readItems : Nat → Nat → Text → Option (List Toml × Text)
  | 0, _, _ => none
  | fuel + 1, depth, t =>
    match skipSpace t with
    | ']' :: rest => some ([], rest)
    | start =>
      (readValue fuel depth start).bind fun (item, rest) =>
        match skipSpace rest with
        | ']' :: more => some ([item], more)
        | ',' :: more => (readItems fuel depth more).map fun (items, last) => (item :: items, last)
        | _ => none

/-- Reads the assignments of a table in braces, up to and with the closing brace. A comma may follow
the last. -/
def readPairs : Nat → Nat → Text → Option (List (List Text × Toml) × Text)
  | 0, _, _ => none
  | fuel + 1, depth, t =>
    match skipSpace t with
    | '}' :: rest => some ([], rest)
    | start =>
      (readKey start).bind fun (key, afterKey) =>
        match skipSpace afterKey with
        | '=' :: afterSign =>
          (readValue fuel depth (skipSpace afterSign)).bind fun (value, rest) =>
            match skipSpace rest with
            | '}' :: more => some ([(key, value)], more)
            | ',' :: more =>
              (readPairs fuel depth more).map fun (pairs, last) => ((key, value) :: pairs, last)
            | _ => none
        | _ => none

end

/-! ## Documents -/

/-- Reads a statement, up to the blanks after it. -/
def readStatement (t : Text) : Option (Statement × Text) :=
  match t with
  | '[' :: '[' :: rest =>
    (readKey rest).bind fun (path, more) =>
      match more with
      | ']' :: ']' :: last => some (.element path, last)
      | _ => none
  | '[' :: rest =>
    (readKey rest).bind fun (path, more) =>
      match more with
      | ']' :: last => some (.header path, last)
      | _ => none
  | _ =>
    (readKey t).bind fun (key, more) =>
      match more with
      | '=' :: last =>
        (readValue (2 * last.length + 2) maxDepth (skipGap last)).map fun (value, rest) =>
          (.assignment key value, rest)
      | _ => none

/-- Reads the statements of a text, in at most the given number of steps. Each stands on lines of
its own. -/
def readStatements : Nat → Text → Option (List Statement)
  | 0, _ => none
  | fuel + 1, t =>
    match skipSpace t with
    | [] => some []
    | start =>
      (readStatement start).bind fun (statement, rest) =>
        (lineEnd? rest).bind fun more => (readStatements fuel more).map (statement :: ·)

/-- A text without the mark of its byte order. -/
def dropMark : Text → Text
  | c :: rest => if c.toNat = 0xfeff then rest else c :: rest
  | [] => []

/-- Reads a document. -/
def parse? (t : Text) : Option Fields :=
  (readStatements (t.length + 1) (dropMark t)).bind build?

end Toml

end CodeGauge
