import CodeGauge.Source.Stripped
import CodeGauge.Source.TypeHeader

/-!
# Afferent coupling

The number of sibling sources that refer to the first class of a source.
-/

namespace CodeGauge

namespace Afferent

/-- The shapes in which a source refers to a class. -/
def reference (className : Text) : Pattern :=
  let c : Pattern := .literal className
  .oneOf
    [ -- a typed name
      .wordEdge ++ c ++ .blanks1 ++ .many1 isWordChar,
      -- a new object
      .wordEdge ++ .word "new" ++ .blanks1 ++ c ++ .blanks ++ .char '(',
      -- a member
      .wordEdge ++ c ++ .char '.',
      -- a supertype
      .wordEdge ++ .word "extends" ++ .blanks1 ++ c ++ .wordEdge,
      .wordEdge ++ .word "implements" ++ .blanks1 ++ .many (· != '{') ++ .wordEdge ++
        c ++ .wordEdge,
      -- a parameter
      .char '(' ++ .blanks ++ c ++ .blanks1,
      -- a type argument
      .char '<' ++ .many (· != '>') ++ .wordEdge ++ c ++ .wordEdge ++ .many (· != '>') ++ .char '>',
      -- an array
      .wordEdge ++ c ++ .word "[]",
      -- an import
      .wordEdge ++ .word "import" ++ .blanks1 ++ .many (· != ';') ++ .char '.' ++ c ++ .blanks
        ++ .char ';']

/-- Whether a sibling refers to a class. -/
def refersTo (className sibling : Text) : Bool :=
  (reference className).occursIn (Source.stripped sibling)

/-- The number of siblings that refer to the first class of a source; zero if it has none. -/
def coupling (source : Text) (siblings : List Text) : Nat :=
  match TypeHeader.primary? (TypeHeader.declarations (Source.stripped source)) [.classKind] with
  | none => 0
  | some className => siblings.countP (refersTo className)

end Afferent

end CodeGauge
