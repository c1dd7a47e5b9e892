import Mathlib.Data.Finset.Card
import Mathlib.Data.Finset.Dedup
import CodeGauge.Proofs.Metric.ClassNames
import CodeGauge.Proofs.Source.ImportLines

/-!
# What an import changes

An import statement in front of a source changes its dependencies by one name at most, that of the
class it names (`mem_dependencies_append`): an import from the platform library takes the name away
wherever else it came from, any other adds it if it is foreign to the source.

* `import_changes_one_name`: the dependencies as a set, with and without the import. So an import
  from the platform library never raises the coupling.
-/

namespace CodeGauge

namespace Efferent

variable {source name : Text} {p : ImportPath}

/-- The classes that a source depends on, as a set. -/
def dependencySet (source : Text) : Finset Text := (dependencies source).toFinset

theorem mem_dependencySet : name ∈ dependencySet source ↔ name ∈ dependencies source :=
  List.mem_toFinset

theorem card_dependencySet (source : Text) : (dependencySet source).card = coupling source :=
  List.toFinset_card_of_nodup (dependencies_nodup source)

/-! ## The three ways and the familiar names -/

theorem importsOf_append (p : ImportPath) (source : Text) :
    importsOf (p.statement ++ source) = ⟨false, p.text⟩ :: importsOf source := by
  rw [importsOf, p.stripped_append, p.ofSource_append, importsOf]

theorem typesOf_append (p : ImportPath) (source : Text) :
    typesOf (p.statement ++ source) = typesOf source := by
  rw [typesOf, p.stripped_append, p.declarations_append, typesOf]

/-- An import line uses no types. -/
theorem usedNames_append (p : ImportPath) (source : Text) :
    usedNames (Source.stripped (p.statement ++ source)) = usedNames (Source.stripped source) := by
  have passed : isUsageLine p.line = false := by
    have keyword : "import ".toList.isPrefixOf p.line = true := by
      rw [List.isPrefixOf_iff_prefix]
      exact ⟨p.text ++ [';'], rfl⟩
    rw [isUsageLine, keyword]
    simp
  rw [usedNames, p.stripped_append, p.trimmedLines_append,
    List.filter_cons_of_neg (by simp [passed]), usedNames]

theorem importPath_text (p : ImportPath) : importPath ⟨false, p.text⟩ = p.text := by
  rw [importPath, p.words_text]
  exact List.append_nil p.text

/-- The class that an import names, unless it leads into the platform library. -/
theorem className?_text (p : ImportPath) :
    Import.className? p.text false = if Import.isPlatformPath p.text then none
      else some p.last := by
  have notEmpty : p.last ≠ [] := p.named p.last (by simp)
  have notAll : p.last ≠ ['*'] := by
    intro same
    have fits := p.plain p.last (by simp) '*' (by simp [same])
    contradiction
  rw [Import.className?, p.segments_text]
  split
  · rfl
  · exact Option.filter_some_pos (by simp [notEmpty, notAll])

theorem mem_importedNames_append :
    name ∈ importedNames (importsOf (p.statement ++ source)) ↔
      (Import.isPlatformPath p.text = false ∧ name = p.last) ∨
        name ∈ importedNames (importsOf source) := by
  have first := className?_text p
  rw [importsOf_append, importedNames, List.mem_filterMap]
  simp only [List.mem_cons, exists_eq_or_imp, importPath_text, first]
  cases platform : Import.isPlatformPath p.text <;>
    simp [importedNames, List.mem_filterMap, eq_comm]

/-- The import accounts for the name of its class, if it leads into the platform library. -/
theorem foreign_append :
    Foreign (p.statement ++ source) name ↔
      Foreign source name ∧ (Import.isPlatformPath p.text = true → name ≠ p.last) := by
  constructor
  · rintro ⟨primitive, platform, imported, declared⟩
    rw [importsOf_append] at imported
    rw [typesOf_append] at declared
    refine ⟨⟨primitive, platform, fun i there => imported i (by simp [there]), declared⟩, ?_⟩
    intro library same
    have first := imported ⟨false, p.text⟩ (by simp) rfl (by rwa [importPath_text])
    rw [importPath_text, p.segments_text] at first
    exact first (by simp [same])
  · rintro ⟨⟨primitive, platform, imported, declared⟩, other⟩
    refine ⟨primitive, platform, ?_, by rwa [typesOf_append]⟩
    rw [importsOf_append]
    intro i there plain library
    rcases List.mem_cons.1 there with rfl | there
    · rw [importPath_text] at library ⊢
      rw [p.segments_text]
      intro same
      exact other library (Option.some.inj same).symm
    · exact imported i there plain library

/-! ## The dependencies -/

theorem mem_dependencies_append :
    name ∈ dependencies (p.statement ++ source) ↔
      ((Import.isPlatformPath p.text = false ∧ name = p.last ∧ Foreign source name) ∨
        name ∈ dependencies source) ∧ (Import.isPlatformPath p.text = true → name ≠ p.last) := by
  rw [mem_dependencies, mem_dependencies, mem_importedNames_append, typesOf_append,
    usedNames_append, foreign_append, or_assoc, ← and_assoc, or_and_right, ← and_assoc]

/-- An import from the platform library in front of a source takes the name of its class out of the
dependencies, and so never raises the coupling. Any other import puts the name of its class in, if
the name is foreign to the source, and changes nothing otherwise. -/
theorem import_changes_one_name (p : ImportPath) (source : Text) :
    (Import.isPlatformPath p.text = true →
      dependencySet (p.statement ++ source) = (dependencySet source).erase p.last ∧
        coupling (p.statement ++ source) ≤ coupling source) ∧
    (Import.isPlatformPath p.text = false →
      (Foreign source p.last →
        dependencySet (p.statement ++ source) = insert p.last (dependencySet source)) ∧
      (¬ Foreign source p.last → dependencySet (p.statement ++ source) =
        dependencySet source)) := by
  constructor
  · intro platform
    have erased : dependencySet (p.statement ++ source) = (dependencySet source).erase p.last := by
      ext name
      rw [Finset.mem_erase, mem_dependencySet, mem_dependencySet, mem_dependencies_append, platform]
      simp [and_comm]
    refine ⟨erased, ?_⟩
    rw [← card_dependencySet, ← card_dependencySet, erased]
    exact Finset.card_erase_le
  · intro other
    have added (name : Text) : name ∈ dependencySet (p.statement ++ source) ↔
        (name = p.last ∧ Foreign source name) ∨ name ∈ dependencySet source := by
      rw [mem_dependencySet, mem_dependencySet, mem_dependencies_append, other]
      simp
    constructor
    · intro foreign
      ext name
      rw [added, Finset.mem_insert]
      constructor
      · exact Or.imp_left And.left
      · exact Or.imp_left fun same => ⟨same, same ▸ foreign⟩
    · intro familiar
      ext name
      rw [added]
      constructor
      · rintro (⟨rfl, foreign⟩ | there)
        · exact absurd foreign familiar
        · exact there
      · exact Or.inr

/-- In front of a class with a supertype: a class of the platform library with the name of the
supertype, a class with a new name, and one with the name of the class that is declared. -/
theorem imports_before_subclass :
    let source := "class A extends Base \x7b\n\x7d\n".toList
    let library := ImportPath.ofIdentifiers ["java".toList, "util".toList] "Base".toList (by decide)
    let new := ImportPath.ofIdentifiers ["com".toList] "Other".toList (by decide)
    let declared := ImportPath.ofIdentifiers ["com".toList] "A".toList (by decide)
    (Import.isPlatformPath library.text = true ∧ library.last ∈ dependencySet source ∧
      dependencySet (library.statement ++ source) = (dependencySet source).erase library.last ∧
      coupling (library.statement ++ source) ≤ coupling source) ∧
    (Import.isPlatformPath new.text = false ∧ Foreign source new.last ∧
      dependencySet (new.statement ++ source) = insert new.last (dependencySet source)) ∧
    (Import.isPlatformPath declared.text = false ∧ ¬ Foreign source declared.last ∧
      dependencySet (declared.statement ++ source) = dependencySet source) := by
  intro source library new declared
  have counted : counts (familiarNames (importsOf source) (typesOf source)) library.last = true ∧
      counts (familiarNames (importsOf source) (typesOf source)) new.last = true ∧
      counts (familiarNames (importsOf source) (typesOf source)) declared.last = false ∧
      library.last ∈ supertypeNames (typesOf source) := by decide +kernel
  obtain ⟨foreign, newForeign, familiar, inherited⟩ := counted
  have there : library.last ∈ dependencySet source :=
    mem_dependencySet.2 (mem_dependencies.2 ⟨.inr (.inl inherited), counts_iff.1 foreign⟩)
  have known : ¬ Foreign source declared.last := fun h => by simp [counts_iff.2 h] at familiar
  have platform : Import.isPlatformPath library.text = true := by decide
  have newOther : Import.isPlatformPath new.text = false := by decide
  have declaredOther : Import.isPlatformPath declared.text = false := by decide
  exact ⟨⟨platform, there, (import_changes_one_name library source).1 platform⟩,
    ⟨newOther, counts_iff.1 newForeign,
      ((import_changes_one_name new source).2 newOther).1 (counts_iff.1 newForeign)⟩,
    declaredOther, known, ((import_changes_one_name declared source).2 declaredOther).2 known⟩

end Efferent

end CodeGauge
