import CodeGauge.Metric.Cyclomatic
import CodeGauge.Source.Stripped

/-!
# Cognitive complexity

Control flow weighted by how deeply it is nested, scored line by line on the stripped source. A line
scores one for its first control keyword and one more for each level around it, one extra for
`else if`, and one for each logical operator and each conditional expression. The scores are added
up in 32 bits, and a total that does not fit wraps around.
-/

namespace CodeGauge

namespace Cognitive

/-- A keyword that opens a level: directly followed by a parenthesis. -/
def opener : Pattern :=
  guardedKeyword (.anyWord ["if", "for", "while", "switch", "try", "catch"])

/-- A control keyword; `else if` comes before its parts. -/
def controlFlow : Pattern :=
  .wordEdge
    ++ .slot .keyword (.word "else" ++ .blanks1 ++ .word "if"
      <|> .anyWord ["if", "else", "for", "while", "do", "switch", "catch", "finally"])
    ++ .wordEdge

/-- A conditional expression. -/
def conditional : Pattern :=
  .char '?' ++ .many (· != ':') ++ .char ':'

/-- Whether a line begins by closing a block. -/
def closesFirst (line : Text) : Bool := line.head? = some '}'

/-- The number of levels around a line, given the number before it. -/
def levelOn (level : Nat) (line : Text) : Nat :=
  if closesFirst line then level - 1 else level

/-- Whether a keyword is `else if`. -/
def isElseIf (keyword : Text) : Bool :=
  "else".toList.isPrefixOf keyword && "if".toList.isSuffixOf keyword

/-- What the first control keyword of a line scores. -/
def keywordScore (level : Nat) (line : Text) : Nat :=
  match controlFlow.find? line with
  | none => 0
  | some m => 1 + level + if isElseIf (m.part .keyword) then 1 else 0

/-- What a line scores, given the number of levels before it. -/
def lineScore (level : Nat) (line : Text) : Nat :=
  keywordScore (levelOn level line) line + logicalOperator.count line + conditional.count line

/-- Whether a line opens a level. -/
def opensLevel (line : Text) : Bool :=
  line.contains '{' && opener.occursIn line

/-- Whether a line closes a block after its first character. -/
def closesLater (line : Text) : Bool :=
  (if closesFirst line then line.drop 1 else line).contains '}'

/-- The number of levels after a line, given the number before it. -/
def levelAfter (level : Nat) (line : Text) : Nat :=
  let opened := levelOn level line + if opensLevel line then 1 else 0
  if closesLater line then opened - 1 else opened

/-- What a list of lines scores from a given number of levels on. -/
def score : Nat → List Text → Nat
  | _, [] => 0
  | level, line :: rest => lineScore level line + score (levelAfter level line) rest

/-- The lines that count: trimmed and not empty. -/
def linesOf (source : Text) : List Text :=
  (Text.trimmedLines (Source.stripped source)).filter (!·.isEmpty)

/-- What all lines of a source score together. -/
def total (source : Text) : Nat := score 0 (linesOf source)

/-- The cognitive complexity of a source: the total, in 32 bits. -/
def complexity (source : Text) : UInt32 := .ofNat (total source)

end Cognitive

end CodeGauge
