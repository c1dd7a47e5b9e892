import CodeGauge.Pattern.Basic

/-!
# Building patterns

Patterns are written with `++` for "then" and `<|>` for "or else", from the pieces below.
-/

namespace CodeGauge

namespace Pattern

instance : Append Pattern := ⟨seq⟩

instance : OrElse Pattern := ⟨fun p q => alt p (q ())⟩

/-- Exactly the given word or sign. -/
def word (w : String) : Pattern := literal w.toList

/-- Exactly the given character. -/
def char (c : Char) : Pattern := one (· == c)

/-- One of the given patterns, the first that fits. -/
def oneOf : List Pattern → Pattern
  | [] => one fun _ => false
  | [p] => p
  | p :: ps => alt p (oneOf ps)

/-- One of the given words, the first that fits. -/
def anyWord (ws : List String) : Pattern := oneOf (ws.map word)

/-- A pattern or nothing, the pattern first. -/
def optional (p : Pattern) : Pattern := alt p empty

/-- Any number of characters of a class, as many as possible first. -/
def many (accepts : Char → Bool) : Pattern := span .greedy accepts

/-- At least one character of a class, as many as possible first. -/
def many1 (accepts : Char → Bool) : Pattern := seq (one accepts) (many accepts)

/-- Any number of characters of a class, as few as possible first. -/
def few (accepts : Char → Bool) : Pattern := span .lazy accepts

/-- At least one character of a class, as few as possible first. -/
def few1 (accepts : Char → Bool) : Pattern := seq (one accepts) (few accepts)

/-- White space, if there is any. -/
def blanks : Pattern := many isBlank

/-- White space. -/
def blanks1 : Pattern := many1 isBlank

/-- The rest of the line or a part of it, as much as possible first. -/
def onLine : Pattern := many (· != '\n')

/-- A character that is none of the given ones. -/
def noneOf (cs : List Char) (c : Char) : Bool := !cs.contains c

end Pattern

end CodeGauge
