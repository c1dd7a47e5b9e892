import CodeGauge.Metric.Share
import CodeGauge.Source.Import
import CodeGauge.Source.Stripped
import CodeGauge.Source.TypeHeader

/-!
# Instability

The share of outgoing dependencies among all dependencies of a type. Outgoing and incoming
dependencies are recognised by rules of their own, narrower than those of the two couplings.
-/

namespace CodeGauge

namespace Instability

/-- Types too common to count. -/
def commonTypes : List Text :=
  ["String", "Integer", "Boolean", "Object", "List", "Map"].map String.toList

/-- Keywords of type headers. -/
def headerWords : List Text :=
  ["class", "interface", "enum", "extends", "implements"].map String.toList

/-- Whether a name can be an outgoing dependency. -/
def isCandidate (name : Text) : Bool :=
  name.head?.any Char.isUpper && name.all (fun c => c.isAlphanum || c == '_' || c == '$')
    && !headerWords.contains name

/-- The shapes in which a source uses a type. -/
def outgoing : List Pattern :=
  [.wordEdge ++ .word "extends" ++ .blanks1 ++ .slot .type (.many1 isWordChar),
    .slot .type (.many1 isWordChar) ++ .blanks1 ++ .many1 isWordChar ++ .blanks
      ++ .one (fun c => c == ';' || c == '='),
    .char '<' ++ .slot .type (.many1 isWordChar) ++ .char '>',
    .wordEdge ++ .word "new" ++ .blanks1 ++ .slot .type (.many1 isWordChar) ++ .blanks ++ .char '(']

/-- A list of implemented interfaces. -/
def implementsList : Pattern :=
  .wordEdge ++ .word "implements" ++ .blanks1 ++ .slot .implemented (.many1 (· != '{'))

/-- The classes that the imports name; of a static import the last segment counts too. -/
def importedNames (stripped : Text) : List Text :=
  (Import.ofSource stripped).filterMap fun i => Import.className? (Text.trim i.path) false

/-- The candidates among the types that a source uses. -/
def usedNames (stripped : Text) : List Text :=
  let used := outgoing.flatMap fun p => (p.findAll stripped).map (·.part .type)
  let implemented := (implementsList.findAll stripped).flatMap fun m =>
    (TypeList.split (m.part .implemented)).map TypeList.base
  (used ++ implemented).filter isCandidate

/-- The number of distinct outgoing dependencies of the type with the given name. -/
def outgoingCount (stripped own : Text) : Nat :=
  let names := importedNames stripped ++ usedNames stripped
  ((names.filter fun name => name ≠ own ∧ !commonTypes.contains name).eraseDups).length

/-- The shapes in which another source refers to a type. -/
def incoming (typeName : Text) : Pattern :=
  let c : Pattern := .literal typeName
  .oneOf
    [.wordEdge ++ c ++ .blanks1 ++ .many1 isWordChar,
      .wordEdge ++ .word "new" ++ .blanks1 ++ c ++ .blanks ++ .char '(',
      .wordEdge ++ c ++ .char '.' ++ .many1 isWordChar,
      .wordEdge ++ .word "extends" ++ .blanks1 ++ c ++ .wordEdge,
      .wordEdge ++ .word "implements" ++ .blanks1 ++ .onLine ++ c,
      .char '(' ++ .blanks ++ c ++ .blanks1 ++ .many1 isWordChar ++ .blanks ++ .char ')',
      .char '<' ++ .blanks ++ c ++ .blanks ++ .char '>',
      .wordEdge ++ c ++ .word "[]"]

/-- Whether a sibling refers to a type. -/
def refersTo (typeName sibling : Text) : Bool :=
  (incoming typeName).occursIn (Source.stripped sibling)

/-- The instability of the first class of a source, or else of its first interface; `none` if it
declares neither. A type without any dependency is stable. -/
def ofSources (source : Text) (siblings : List Text) : Option Share :=
  let stripped := Source.stripped source
  (TypeHeader.primary? (TypeHeader.declarations stripped) [.classKind, .interfaceKind]).map
    fun name =>
      let out := outgoingCount stripped name
      let total := out + siblings.countP (refersTo name)
      if total = 0 then .zero else ⟨out, total⟩

end Instability

end CodeGauge
