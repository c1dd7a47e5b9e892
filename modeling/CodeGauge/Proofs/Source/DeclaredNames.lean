import CodeGauge.Proofs.Pattern.Leads
import CodeGauge.Proofs.Source.Declarators

/-!
# The names of declared types

Whatever a source looks like, the types that are found in it have names (`name_mem_language`): they
are not empty, start as identifiers do and hold nothing but word characters and dollar signs.
-/

namespace CodeGauge

namespace Java

variable {name : Text}

theorem ne_nil_of_mem_name (h : name ∈ Java.name.language) : name ≠ [] := by
  obtain ⟨c, rest, -, -, rfl⟩ := Member.mem_name.1 h
  simp

theorem isNameChar_of_isNameStart {c : Char} (start : isNameStart c = true) :
    isNameChar c = true := by
  have cases : (c.isAlpha = true ∨ c = '_') ∨ c = '$' := by simpa [isNameStart] using start
  rcases cases with (letter | rfl) | rfl
  · simp [isNameChar, Text.isWordChar_of_isAlphanum (c := c) (by simp [Char.isAlphanum, letter])]
  · decide
  · decide

theorem isNameChar_of_mem_name (h : name ∈ Java.name.language) :
    ∀ c ∈ name, isNameChar c = true := by
  obtain ⟨c, rest, start, others, rfl⟩ := Member.mem_name.1 h
  exact List.forall_mem_cons.2 ⟨isNameChar_of_isNameStart start, others⟩

/-- Apart from dollar signs, a name is made of word characters. -/
theorem isWordChar_of_mem_name (h : name ∈ Java.name.language) {c : Char} (there : c ∈ name)
    (other : c ≠ '$') : isWordChar c = true := by
  simpa [isNameChar, other] using isNameChar_of_mem_name h c there

end Java

namespace TypeHeader

variable {source name : Text} {d : TypeDecl}

/-- A declared type has a name. -/
theorem name_mem_language (declared : d ∈ declarations source) : d.name ∈ Java.name.language := by
  obtain ⟨m, found, makes⟩ := List.mem_filterMap.1 declared
  obtain ⟨kind, -, rfl⟩ := Option.map_eq_some_iff.1 makes
  obtain ⟨s, w, header, rfl⟩ := Pattern.exists_way_of_mem_findAll found
  -- Six pieces of a header stand behind the name; none of them has a part with its label.
  obtain ⟨_, header, brace⟩ := Pattern.exists_part_eq .name (by decide) header
  obtain ⟨_, header, gap⟩ := Pattern.exists_part_eq .name (by decide) header
  obtain ⟨_, header, permits⟩ := Pattern.exists_part_eq .name (by decide) header
  obtain ⟨_, header, implements⟩ := Pattern.exists_part_eq .name (by decide) header
  obtain ⟨_, header, extends_⟩ := Pattern.exists_part_eq .name (by decide) header
  obtain ⟨_, header, parameters⟩ := Pattern.exists_part_eq .name (by decide) header
  show w.1.part .name ∈ _
  rw [brace, gap, permits, implements, extends_, parameters]
  exact Pattern.part_mem_language rfl header

theorem exists_of_primary? {decls : List TypeDecl} {kinds : List TypeKind}
    (h : primary? decls kinds = some name) : ∃ d ∈ decls, d.name = name := by
  obtain ⟨kind, -, first⟩ := List.exists_of_findSome?_eq_some h
  obtain ⟨d, found, same⟩ := Option.map_eq_some_iff.1 first
  exact ⟨d, List.mem_of_find?_eq_some found, same⟩

/-- The first type of a source has a name. -/
theorem primary?_mem_language {kinds : List TypeKind}
    (h : primary? (declarations source) kinds = some name) : name ∈ Java.name.language := by
  obtain ⟨d, declared, rfl⟩ := exists_of_primary? h
  exact name_mem_language declared

end TypeHeader

end CodeGauge
