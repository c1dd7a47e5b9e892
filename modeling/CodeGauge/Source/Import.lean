import CodeGauge.Java.Word
import CodeGauge.Pattern.Search

/-!
# Imports

The import statements of a stripped source and the classes that they name.
-/

namespace CodeGauge

/-- An import statement: whether it is static, and the path as it is written. -/
structure Import where
  isStatic : Bool
  path : Text
deriving DecidableEq

namespace Import

/-- An import statement. -/
def pattern : Pattern :=
  .wordEdge ++ .word "import" ++ .blanks1
    ++ .optional (.slot .static (.word "static" ++ .blanks1))
    ++ .slot .path (.many1 (· != ';')) ++ .char ';'

/-- The imports of a stripped source, in order. -/
def ofSource (source : Text) : List Import :=
  (pattern.findAll source).map fun m => ⟨(m.part? .static).isSome, m.part .path⟩

/-- Whether a path leads into the platform library. -/
def isPlatformPath (path : Text) : Bool := "java.".toList.isPrefixOf path

/-- The segments of a dotted path, last one first. -/
def segments (path : Text) : List Text := (Text.splitWhere (· == '.') path).reverse

/-- The class that a path names: its last segment, or the one before if a member is imported. Paths
into the platform library and wildcards name none. -/
def className? (path : Text) (ofMember : Bool) : Option Text :=
  if isPlatformPath path then none
  else
    ((segments path).drop (if ofMember then 1 else 0)).head?.filter fun name =>
      name ≠ ['*'] ∧ name ≠ []

end Import

end CodeGauge
