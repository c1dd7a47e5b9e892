import CodeGauge.Text.Basic
import CodeGauge.Pattern.Build

/-!
# Words of Java

Reserved words, primitive types and identifiers.
-/

namespace CodeGauge

namespace Java

/-- Reserved words and the three word literals: none of them can name a type. -/
def keywords : List Text :=
  ["abstract", "assert", "boolean", "break", "byte", "case", "catch", "char", "class", "const",
    "continue", "default", "do", "double", "else", "enum", "extends", "final", "finally", "float",
    "for", "goto", "if", "implements", "import", "instanceof", "int", "interface", "long", "native",
    "new", "package", "private", "protected", "public", "return", "short", "static", "strictfp",
    "super", "switch", "synchronized", "this", "throw", "throws", "transient", "try", "void",
    "volatile", "while", "true", "false", "null"].map String.toList

/-- The primitive types and `void`. -/
def primitives : List Text :=
  ["void", "int", "long", "double", "float", "boolean", "byte", "short", "char"].map String.toList

/-- Whether a word is reserved. -/
def isKeyword (w : Text) : Bool := keywords.contains w

/-- Whether a word is a primitive type or `void`. -/
def isPrimitive (w : Text) : Bool := primitives.contains w

/-- A character that can start an identifier: an ASCII letter, an underscore or a dollar sign. -/
def isNameStart (c : Char) : Bool := c.isAlpha || c == '_' || c == '$'

/-- Whether a text is an identifier of ASCII characters. -/
def isIdentifier : Text → Bool
  | [] => false
  | c :: rest => isNameStart c && rest.all fun d => d.isAlphanum || d == '_' || d == '$'

/-- A character that can continue a name in a source: a word character or a dollar sign. -/
def isNameChar (c : Char) : Bool := isWordChar c || c == '$'

/-- A character of a dotted name. -/
def isDottedChar (c : Char) : Bool := isNameChar c || c == '.'

/-- A name as it stands in a source. It starts as an identifier does and may go on with any word
character. -/
def name : Pattern := .one isNameStart ++ .many isNameChar

/-- Whether a type name is one that a declaration can use: a primitive or no reserved word. -/
def canNameType (w : Text) : Bool := !isKeyword w || isPrimitive w

end Java

end CodeGauge
