import CodeGauge.Pattern.Build
import CodeGauge.Pattern.Search

/-!
# Cyclomatic complexity

One path through a source, and one more for each decision point. Decision points are counted
wherever they stand, in comments and literals too.
-/

namespace CodeGauge

/-- A logical operator: `&&` or `||`. -/
def logicalOperator : Pattern := .word "&&" <|> .word "||"

/-- A keyword with its opening parenthesis. -/
def guardedKeyword (keyword : Pattern) : Pattern :=
  .wordEdge ++ keyword ++ .blanks ++ .char '('

namespace Cyclomatic

/-- The shapes of decision points. -/
def decisions : List Pattern :=
  [guardedKeyword (.word "if"),
    guardedKeyword (.word "else" ++ .blanks1 ++ .word "if"),
    guardedKeyword (.word "while"),
    guardedKeyword (.word "for"),
    .wordEdge ++ .word "case" ++ .blanks1 ++ .many1 (Pattern.noneOf [':', '\n']) ++ .char ':',
    guardedKeyword (.word "catch"),
    .char '?' ++ .many1 (Pattern.noneOf [':', ';', '\n']) ++ .char ':',
    logicalOperator]

/-- The cyclomatic complexity of a source. -/
def complexity (source : Text) : Nat :=
  1 + decisions.foldr (fun decision n => decision.count source + n) 0

end Cyclomatic

end CodeGauge
