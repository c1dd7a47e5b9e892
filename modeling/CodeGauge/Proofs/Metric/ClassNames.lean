import Mathlib.Data.List.Dedup
import CodeGauge.Metric.Efferent

/-!
# What counts as a dependency

A name comes among the dependencies of a source on one of three ways: it is imported, it is a
supertype, or a line uses it as a type (`mem_dependencies`). Whichever way it came, it is no
primitive and no platform type and the source accounts for it in no other way (`counts_iff`), and it
is there only once. That it is the name of a class is checked on the third way alone
(`isClassName_of_used`). On the other two it depends on how the source is written
(`dependencies_are_class_names_iff`): a supertype with a qualified name is a dependency of its own
beside the class that is imported (`qualified_supertype_counts_twice`).
-/

namespace CodeGauge

namespace Efferent

variable {source name : Text}

/-- Whether a text is the name of a class: an identifier that is no reserved word. -/
def IsClassName (name : Text) : Prop := Java.isIdentifier name = true ∧ Java.isKeyword name = false

instance (name : Text) : Decidable (IsClassName name) := inferInstanceAs (Decidable (_ ∧ _))

/-- The imports of a source. -/
def importsOf (source : Text) : List Import := Import.ofSource (Source.stripped source)

/-- The types that a source declares. -/
def typesOf (source : Text) : List TypeDecl := TypeHeader.declarations (Source.stripped source)

/-- Whether a name is left over when a source has accounted for what it knows: it is no primitive
and no platform type, no import from the platform library ends in it, and no type of this name is
declared. -/
structure Foreign (source name : Text) : Prop where
  notPrimitive : Java.isPrimitive name = false
  notPlatform : name ∉ platformTypes
  notImported : ∀ i ∈ importsOf source, i.isStatic = false →
    Import.isPlatformPath (importPath i) = true → (Import.segments (importPath i)).head? ≠ some name
  notDeclared : ∀ d ∈ typesOf source, d.name ≠ name

theorem counts_iff :
    counts (familiarNames (importsOf source) (typesOf source)) name = true ↔
      Foreign source name := by
  have familiar : name ∈ familiarNames (importsOf source) (typesOf source) ↔
      (∃ i ∈ importsOf source, (i.isStatic = false ∧ Import.isPlatformPath (importPath i) = true) ∧
        (Import.segments (importPath i)).head? = some name) ∨
          ∃ d ∈ typesOf source, d.name = name := by
    simp only [familiarNames, platformNames, List.mem_append, List.mem_filterMap, List.mem_filter,
      List.mem_map, Bool.and_eq_true, Bool.not_eq_true', and_assoc]
  simp only [counts, Bool.and_eq_true, Bool.not_eq_true', List.contains_eq_mem,
    decide_eq_false_iff_not, familiar]
  constructor
  · rintro ⟨⟨primitive, platform⟩, unfamiliar⟩
    rw [not_or] at unfamiliar
    refine ⟨primitive, platform, fun i there plain library ends => ?_, fun d there same => ?_⟩
    · exact unfamiliar.1 ⟨i, there, ⟨plain, library⟩, ends⟩
    · exact unfamiliar.2 ⟨d, there, same⟩
  · intro foreign
    refine ⟨⟨foreign.notPrimitive, foreign.notPlatform⟩, ?_⟩
    rintro (⟨i, there, ⟨plain, library⟩, ends⟩ | ⟨d, there, same⟩)
    · exact foreign.notImported i there plain library ends
    · exact foreign.notDeclared d there same

/-- A name is a dependency if it came in on one of the three ways and is left over. -/
theorem mem_dependencies :
    name ∈ dependencies source ↔
      (name ∈ importedNames (importsOf source) ∨ name ∈ supertypeNames (typesOf source) ∨
        name ∈ usedNames (Source.stripped source)) ∧ Foreign source name := by
  rw [← counts_iff]
  simp only [dependencies, List.mem_mergeSort, List.mem_filter, List.mem_eraseDups, List.mem_append,
    or_assoc]
  rfl

theorem eraseDups_nodup (names : List Text) : names.eraseDups.Nodup := by
  induction h : names.length using Nat.strongRecOn generalizing names with
  | ind n ih =>
    cases names with
    | nil => simp
    | cons first names =>
      -- What is equal to the first name is left out of the others.
      have shorter : (names.filter fun other => !other == first).length < n := by
        have := List.length_filter_le (fun other => !other == first) names
        rw [List.length_cons] at h
        omega
      rw [List.eraseDups_cons, List.nodup_cons]
      exact ⟨by simp, ih _ shorter _ rfl⟩

theorem dependencies_nodup (source : Text) : (dependencies source).Nodup :=
  (List.mergeSort_perm _ _).nodup_iff.2 ((eraseDups_nodup _).filter _)

/-- What a line uses as a type is checked before it is taken. -/
theorem isClassName_of_used {stripped : Text} (used : name ∈ usedNames stripped) :
    IsClassName name := by
  have checked := (List.mem_filter.1 used).2
  simp only [looksLikeClass, Bool.and_eq_true, Bool.not_eq_true'] at checked
  exact ⟨checked.1.1.1, checked.1.1.2⟩

/-- The dependencies of a source are distinct and foreign to it. They are names of classes exactly
if all foreign names among those of its imported classes and of its supertypes are. -/
theorem dependencies_are_class_names_iff (source : Text) :
    (dependencies source).Nodup ∧ (∀ name ∈ dependencies source, Foreign source name) ∧
      ((∀ name ∈ dependencies source, IsClassName name) ↔
        (∀ i ∈ importsOf source, ∀ name ∈ Import.className? (importPath i) i.isStatic,
          Foreign source name → IsClassName name) ∧
        ∀ d ∈ typesOf source, ∀ supertype ∈ d.extended ++ d.implemented,
          Foreign source (TypeList.base supertype) → IsClassName (TypeList.base supertype)) := by
  refine ⟨dependencies_nodup source, fun name there => (mem_dependencies.1 there).2, ?_⟩
  constructor
  · intro all
    constructor
    · intro i there name names foreign
      exact all name (mem_dependencies.2 ⟨.inl (List.mem_filterMap.2 ⟨i, there, names⟩), foreign⟩)
    · intro d there supertype listed foreign
      have named : TypeList.base supertype ∈ supertypeNames (typesOf source) :=
        List.mem_flatMap.2 ⟨d, there, List.mem_map_of_mem listed⟩
      exact all _ (mem_dependencies.2 ⟨.inr (.inl named), foreign⟩)
  · rintro ⟨imported, inherited⟩ name there
    obtain ⟨imports | supertypes | used, foreign⟩ := mem_dependencies.1 there
    · obtain ⟨i, listed, names⟩ := List.mem_filterMap.1 imports
      exact imported i listed name names foreign
    · obtain ⟨d, declared, named⟩ := List.mem_flatMap.1 supertypes
      obtain ⟨supertype, listed, rfl⟩ := List.mem_map.1 named
      exact inherited d declared supertype listed foreign
    · exact isClassName_of_used used

/-- A class that is imported, and named with its package as a supertype, is two dependencies. The
second is the name of no class. -/
theorem qualified_supertype_counts_twice :
    let source := "import com.example.Base;\nclass A extends com.example.Base \x7b\n\x7d\n".toList
    dependencies source = ["Base".toList, "com.example.Base".toList] ∧
      ¬ ∀ name ∈ dependencies source, IsClassName name := by
  intro source
  have kept : (importedNames (importsOf source) ++ supertypeNames (typesOf source) ++
      usedNames (Source.stripped source)).eraseDups.filter
        (counts (familiarNames (importsOf source) (typesOf source))) =
      ["Base".toList, "com.example.Base".toList] := by decide +kernel
  have both : dependencies source = ["Base".toList, "com.example.Base".toList] :=
    (congrArg (List.mergeSort · Text.le) kept).trans (List.mergeSort_of_pairwise (by decide))
  refine ⟨both, fun all => ?_⟩
  have qualified := all "com.example.Base".toList (by simp [both])
  exact absurd qualified (by decide)

end Efferent

end CodeGauge
