import CodeGauge.Source.Import
import CodeGauge.Source.Member
import CodeGauge.Source.Stripped
import CodeGauge.Source.TypeHeader

/-!
# Efferent coupling

The distinct classes that a source depends on: those it imports, its supertypes, and those that it
uses in declarations, type arguments, calls, casts and `throws` clauses. Primitive types, platform
types and the types that the source declares itself do not count.
-/

namespace CodeGauge

namespace Efferent

/-- Types of the platform that every source uses without naming where they come from. -/
def platformTypes : List Text :=
  ["String", "Integer", "Long", "Double", "Float", "Boolean", "Byte", "Short", "Character",
    "Object", "Class", "System", "Math", "StringBuilder", "StringBuffer", "Number", "Void", "Enum",
    "Record", "Iterable", "Comparable", "CharSequence", "Runnable", "Thread", "Throwable",
    "Exception", "RuntimeException", "Error", "Override", "Deprecated", "SuppressWarnings",
    "FunctionalInterface", "SafeVarargs"].map String.toList

/-- Whether a name looks like that of a class: it starts with a capital letter and has a small
one. -/
def looksLikeClass (name : Text) : Bool :=
  Java.isIdentifier name && !Java.isKeyword name && name.head?.any Char.isUpper
    && name.any Char.isLower

/-- A word. -/
def wordChars : Pattern := .many1 isWordChar

/-- A declared type with a name after it. -/
def typedName (label : Slot) : Pattern :=
  .slot label wordChars ++ .blanks1 ++ wordChars

/-- The shapes in which a line uses a type. -/
def usages : List Pattern :=
  [ -- a variable with a type
    .textStart ++ .blanks ++ typedName .type ++ .blanks ++ .one (fun c => c == ';' || c == '='),
    -- a new object
    .word "new" ++ .blanks1 ++ .slot .type wordChars ++ .blanks ++ .char '(',
    -- a list of parameters; of those after the first the last one is kept
    .char '(' ++ .blanks ++ typedName .type
      ++ .star (.blanks ++ .char ',' ++ .blanks ++ typedName .name) ++ .blanks ++ .char ')',
    -- a method with a type
    .anyWord ["public", "protected", "private"] ++ .blanks1 ++ typedName .type ++ .blanks
      ++ .char '(',
    -- a cast
    .char '(' ++ .blanks ++ .slot .type wordChars ++ .blanks ++ .char ')',
    -- a call through a class
    .slot .type wordChars ++ .char '.' ++ wordChars ++ .blanks ++ .char '(']

/-- A character of a list of type arguments. -/
def isArgumentChar (c : Char) : Bool :=
  isWordChar c || isBlank c || ",.?[]<>".toList.contains c

/-- A list of type arguments. -/
def typeArguments : Pattern :=
  .char '<' ++ .slot .arguments (.many1 isArgumentChar) ++ .char '>'

/-- A list of thrown types. -/
def thrown : Pattern :=
  .wordEdge ++ .word "throws" ++ .blanks1
    ++ .slot .type (.many1 fun c => isWordChar c || c == ',' || isBlank c)

/-- The names in a type expression. -/
def typeNames (expression : Text) : List Text :=
  (Java.name.findAll expression).map Match.text

/-- The names that a line uses as types. -/
def lineNames (line : Text) : List Text :=
  let declared := ((Member.fieldPattern.find? line).map fun m => typeNames (m.part .type)).getD []
  let arguments := (typeArguments.findAll line).flatMap fun m =>
    (TypeList.split (m.part .arguments)).flatMap typeNames
  let used := usages.flatMap fun p => (p.findAll line).flatMap fun m =>
    (m.part? .type).toList ++ (m.part? .name).toList
  let thrownTypes := ((thrown.find? line).map fun m =>
    (Text.splitWhere (· == ',') (m.part .type)).map Text.trim).getD []
  declared ++ arguments ++ used ++ thrownTypes

/-- Whether a line may use types: import and package lines do not. -/
def isUsageLine (line : Text) : Bool :=
  !line.isEmpty && !"import ".toList.isPrefixOf line && !"package ".toList.isPrefixOf line

/-- The names that look like classes among those that the lines use. -/
def usedNames (stripped : Text) : List Text :=
  (((Text.trimmedLines stripped).filter isUsageLine).flatMap lineNames).filter looksLikeClass

/-- The path of an import without white space. -/
def importPath (i : Import) : Text := (Text.words i.path).flatten

/-- The classes that a source imports. -/
def importedNames (imports : List Import) : List Text :=
  imports.filterMap fun i => Import.className? (importPath i) i.isStatic

/-- The last segments of the imports from the platform library. -/
def platformNames (imports : List Import) : List Text :=
  (imports.filter fun i => !i.isStatic && Import.isPlatformPath (importPath i)).filterMap
    fun i => (Import.segments (importPath i)).head?

/-- The supertypes of the declared types, without arguments. -/
def supertypeNames (decls : List TypeDecl) : List Text :=
  decls.flatMap fun d => (d.extended ++ d.implemented).map TypeList.base

/-- The names that a source accounts for: those it imports from the platform library and those of
the types that it declares. -/
def familiarNames (imports : List Import) (decls : List TypeDecl) : List Text :=
  platformNames imports ++ decls.map (·.name)

/-- Whether a name counts as a dependency. -/
def counts (familiar : List Text) (name : Text) : Bool :=
  !Java.isPrimitive name && !platformTypes.contains name && !familiar.contains name

/-- The classes that a source depends on, sorted and each once. -/
def dependencies (source : Text) : List Text :=
  let stripped := Source.stripped source
  let imports := Import.ofSource stripped
  let decls := TypeHeader.declarations stripped
  let names := importedNames imports ++ supertypeNames decls ++ usedNames stripped
  (names.eraseDups.filter (counts (familiarNames imports decls))).mergeSort Text.le

/-- The number of classes that a source depends on. -/
def coupling (source : Text) : Nat := (dependencies source).length

end Efferent

end CodeGauge
