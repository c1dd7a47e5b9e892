import CodeGauge.Java.Word
import CodeGauge.Pattern.Search

/-!
# Members of a class

What a single trimmed line declares: `Member.method?` gives the name of a method or constructor
whose signature the line holds, `Member.field?` that of an instance field.
-/

namespace CodeGauge

namespace Member

/-- Annotations, each with its arguments if it has any. -/
def annotations : Pattern :=
  .star (.char '@' ++ .many1 Java.isDottedChar
    ++ .optional (.char '(' ++ .many (· != ')') ++ .char ')') ++ .blanks1)

/-- Any number of the given modifiers. -/
def modifiers (ws : List String) : Pattern := .star (.anyWord ws ++ .blanks1)

/-- Pairs of square brackets, with white space around and between them. -/
def arrayBrackets : Pattern := .star (.blanks ++ .char '[' ++ .blanks ++ .char ']')

/-- A type reference: a dotted name, arguments if there are any, array brackets if there are any. -/
def typeReference : Pattern :=
  .many1 Java.isDottedChar ++ .optional (.blanks ++ .char '<' ++ .onLine ++ .char '>')
    ++ arrayBrackets

/-- A character of a list of thrown types. -/
def isThrowsChar (c : Char) : Bool :=
  Java.isDottedChar c || c == ',' || isBlank c || c == '<' || c == '>'

/-- The modifiers of methods. -/
def methodModifiers : List String :=
  ["public", "private", "protected", "static", "final", "abstract", "synchronized", "native",
    "default", "strictfp"]

/-- The modifiers of fields. -/
def fieldModifiers : List String :=
  ["public", "private", "protected", "static", "final", "transient", "volatile"]

/-- A line that is a method signature, with or without the start of a body. -/
def methodPattern : Pattern :=
  .textStart ++ annotations ++ modifiers methodModifiers
    ++ .optional (.char '<' ++ .few (Pattern.noneOf ['(', ')']) ++ .char '>' ++ .blanks1)
    ++ .optional (.slot .type typeReference ++ .blanks1)
    ++ .slot .name Java.name ++ .blanks ++ .char '(' ++ .many (· != ')') ++ .char ')' ++ .blanks
    ++ .optional (.word "throws" ++ .blanks1 ++ .few1 isThrowsChar) ++ .blanks
    ++ .optional (.char '{' ++ .onLine) ++ .textEnd

/-- A line that is a field declaration, with or without a value. -/
def fieldPattern : Pattern :=
  .textStart ++ annotations ++ .slot .modifiers (modifiers fieldModifiers)
    ++ .slot .type typeReference ++ .blanks1 ++ .slot .name Java.name ++ .blanks
    ++ .star (.char '[' ++ .blanks ++ .char ']') ++ .blanks
    ++ .optional (.char '=' ++ .onLine) ++ .char ';' ++ .blanks ++ .textEnd

/-- The method or constructor that a line declares. Neither its name nor its type is a reserved
word, primitive types apart. -/
def method? (line : Text) : Option Text :=
  (methodPattern.find? line).bind fun m =>
    let name := m.part .name
    if Java.isKeyword name then none
    else if (m.part? .type).all Java.canNameType then some name
    else none

/-- The instance field that a line declares: one without the modifier `static`. -/
def field? (line : Text) : Option Text :=
  (fieldPattern.find? line).bind fun m =>
    let name := m.part .name
    if (Text.words (m.part .modifiers)).contains "static".toList then none
    else if !Java.canNameType (m.part .type) then none
    else if Java.isKeyword name then none
    else some name

end Member

end CodeGauge
