import CodeGauge.Java.Word
import CodeGauge.Pattern.Search
import CodeGauge.Source.TypeList

/-!
# Type headers

A type header is the text from `class`, `interface` or `enum` up to the opening brace of the body.
It names the type and may list type parameters, supertypes and permitted subtypes.
-/

namespace CodeGauge

/-- The kinds of types that a source declares. -/
inductive TypeKind where
  | classKind
  | interfaceKind
  | enumKind
deriving DecidableEq

namespace TypeKind

/-- The keyword that declares a type of this kind. -/
def keyword : TypeKind → String
  | classKind => "class"
  | interfaceKind => "interface"
  | enumKind => "enum"

/-- All kinds. -/
def all : List TypeKind := [classKind, interfaceKind, enumKind]

/-- The kind that a keyword declares. -/
def ofKeyword? (w : Text) : Option TypeKind :=
  all.find? (·.keyword.toList = w)

end TypeKind

/-- A declared type with its supertypes, each in canonical spelling. -/
structure TypeDecl where
  kind : TypeKind
  name : Text
  extended : List Text
  implemented : List Text
deriving DecidableEq

namespace TypeHeader

/-- A clause of a header: a keyword and the text up to the next clause, as short as possible. -/
def clause (keyword : String) (body : Pattern → Pattern) : Pattern :=
  .optional (.blanks1 ++ .word keyword ++ .blanks1 ++ body (.few1 (Pattern.noneOf ['{', ';'])))

/-- A type header with its opening brace. -/
def pattern : Pattern :=
  .wordEdge ++ .slot .kind (.anyWord ["class", "interface", "enum"]) ++ .blanks1
    ++ .slot .name Java.name
    ++ .optional (.blanks ++ .char '<' ++ .few (· != '{') ++ .char '>')
    ++ clause "extends" (.slot .extended) ++ clause "implements" (.slot .implemented)
    ++ clause "permits" id ++ .blanks ++ .char '{'

/-- The start of a class declaration. -/
def classLine : Pattern :=
  .wordEdge ++ .word "class" ++ .blanks1 ++ Java.name

/-- The types that a list of supertypes names. -/
def supertypes (list : Text) : List Text :=
  ((TypeList.split list).filter (!·.isEmpty)).map TypeList.canonical

/-- The declaration that a matched header makes. -/
def decl? (m : Match) : Option TypeDecl :=
  (TypeKind.ofKeyword? (m.part .kind)).map fun kind =>
    { kind, name := m.part .name
      extended := supertypes (m.part .extended)
      implemented := supertypes (m.part .implemented) }

/-- The types declared in a stripped source, in order. -/
def declarations (source : Text) : List TypeDecl :=
  (pattern.findAll source).filterMap decl?

/-- The name of the first type of the first of the given kinds that has one. -/
def primary? (decls : List TypeDecl) (kinds : List TypeKind) : Option Text :=
  kinds.findSome? fun kind => (decls.find? (·.kind = kind)).map (·.name)

end TypeHeader

end CodeGauge
