import CodeGauge.Hierarchy
import CodeGauge.Proofs.Number.Digits
import CodeGauge.Proofs.Source.DeclaredNames
import CodeGauge.Proofs.Source.LineBreaks
import CodeGauge.Proofs.Source.WholeLines

/-!
# The lines of a drawn hierarchy

A hierarchy is drawn with a line for each type, one for each relation and a summary. Whatever
sources it comes from, its types have names and its supertypes end with something visible (`Named`),
so that nothing but a newline inside a supertype can tear a line: `Hierarchy.render_lines_iff`
counts the lines, and they are the intended ones exactly if no supertype holds a newline. A header
that is broken elsewhere than behind a comma between type arguments, or before them, leaves one
there (`Hierarchy.broken_argument_tears_a_line`).
-/

namespace CodeGauge

namespace Text

theorem length_splitWhere (isSep : Char → Bool) (t : Text) :
    (splitWhere isSep t).length = t.countP isSep + 1 := by
  induction t with
  | nil => rfl
  | cons c t ih =>
    by_cases sep : isSep c = true
    · rw [splitWhere_sep sep, List.length_cons, ih, List.countP_cons_of_pos sep]
    · rw [Bool.not_eq_true] at sep
      rw [splitWhere_other sep, List.length_modifyHead, ih, List.countP_cons_of_neg (by simp [sep])]

/-- A text whose last line is ended has as many lines as newlines. -/
theorem length_lines {t : Text} (ended : Ended t) : (lines t).length = t.count '\n' := by
  rcases ended.eq_nil_or_concat with rfl | ⟨front, rfl⟩
  · rfl
  · have last : closeLines (splitWhere (· == '\n') []) = [] := rfl
    rw [lines, splitWhere_append_sep rfl, closeLines_append _ (splitWhere_ne_nil _ _), last,
      List.append_nil, List.length_map, length_splitWhere, List.count_append, List.count]
    rfl

/-- Lines one after the other, each of them ended, are read as they are. -/
theorem lines_flatMap {ls : List Text} (whole : ∀ l ∈ ls, '\n' ∉ l)
    (plain : ∀ l ∈ ls, l.getLast? ≠ some '\r') : lines (ls.flatMap fun l => l ++ ['\n']) = ls := by
  induction ls with
  | nil => rfl
  | cons l ls ih =>
    have alone : splitWhere (· == '\n') l = [l] :=
      splitWhere_of_forall_not fun c there => by
        simpa using fun newline : c = '\n' => whole l List.mem_cons_self (newline ▸ there)
    have first : lines (l ++ ['\n']) = [l] := by
      rw [lines, splitWhere_append_sep rfl, alone]
      simp [closeLines, splitWhere, dropReturn, plain l List.mem_cons_self]
    have rest := ih (fun k there => whole k (List.mem_cons_of_mem _ there)) fun k there =>
      plain k (List.mem_cons_of_mem _ there)
    rw [List.flatMap_cons, lines_append (by simp [Ended]), first, rest]
    rfl

theorem count_newline_flatMap (ls : List Text) :
    (ls.flatMap fun l => l ++ ['\n']).count '\n' = ls.length + ls.flatten.count '\n' := by
  induction ls with
  | nil => rfl
  | cons l ls ih =>
    rw [List.flatMap_cons, List.count_append, List.count_append, List.flatten_cons,
      List.count_append, ih, List.length_cons, List.count_singleton_self]
    omega

end Text

namespace TypeHeader

/-- The supertypes in the headers of a source, as they are spelled there. -/
def spelledSupertypes (source : Text) : List Text :=
  (pattern.findAll (Source.stripped source)).flatMap fun m =>
    (TypeList.split (m.part .extended) ++ TypeList.split (m.part .implemented)).filter (!·.isEmpty)

theorem visible_of_mem_spelledSupertypes {source spelled : Text}
    (there : spelled ∈ spelledSupertypes source) : Text.Visible spelled := by
  obtain ⟨m, -, listed⟩ := List.mem_flatMap.1 there
  obtain ⟨item, some_char⟩ := List.mem_filter.1 listed
  have some_char : spelled ≠ [] := by simpa using some_char
  rcases List.mem_append.1 item with extended | implemented
  · exact TypeList.visible_of_mem_split extended some_char
  · exact TypeList.visible_of_mem_split implemented some_char

/-- A supertype of a declared type is in canonical spelling. -/
theorem exists_spelled {source target : Text} {d : TypeDecl}
    (declared : d ∈ declarations (Source.stripped source))
    (listed : target ∈ d.extended ++ d.implemented) :
    ∃ spelled ∈ spelledSupertypes source, target = TypeList.canonical spelled := by
  obtain ⟨m, found, makes⟩ := List.mem_filterMap.1 declared
  obtain ⟨kind, -, rfl⟩ := Option.map_eq_some_iff.1 makes
  rw [supertypes, supertypes, ← List.map_append, ← List.filter_append] at listed
  obtain ⟨spelled, item, rfl⟩ := List.mem_map.1 listed
  exact ⟨spelled, List.mem_flatMap.2 ⟨m, found, item⟩, rfl⟩

end TypeHeader

namespace Hierarchy

/-- The types and relations of some sources, added one after the other. -/
def ofSources (sources : List (Path × Text)) : Hierarchy :=
  sources.foldl (fun h source => h.addSource source.1 source.2) .empty

theorem ofSources_concat (sources : List (Path × Text)) (source : Path × Text) :
    ofSources (sources ++ [source]) = (ofSources sources).addSource source.1 source.2 := by
  rw [ofSources, List.foldl_concat]
  rfl

/-- The types and relations stand in the order in which the sources declare them. -/
theorem ofSources_eq (sources : List (Path × Text)) : ofSources sources =
    { types := sources.flatMap fun source =>
        (TypeHeader.declarations (Source.stripped source.2)).map (⟨source.1, ·⟩)
      relations := sources.flatMap fun source =>
        (TypeHeader.declarations (Source.stripped source.2)).flatMap relationsOf } := by
  induction sources using List.reverseRecOn with
  | nil => rfl
  | append_singleton sources source ih => rw [ofSources_concat, ih]; simp [addSource]

variable {h : Hierarchy} {t : DeclaredType} {r : Relation} {sources : List (Path × Text)}

theorem of_mem_relationsOf {d : TypeDecl} (related : r ∈ relationsOf d) :
    r.source = d.name ∧ r.target ∈ d.extended ++ d.implemented := by
  rcases List.mem_append.1 related with extended | implemented
  · obtain ⟨target, listed, rfl⟩ := List.mem_map.1 extended
    exact ⟨rfl, List.mem_append_left _ listed⟩
  · obtain ⟨target, listed, rfl⟩ := List.mem_map.1 implemented
    exact ⟨rfl, List.mem_append_right _ listed⟩

/-- A relation of a hierarchy is one of a type that a source declares. -/
theorem exists_declaration (related : r ∈ (ofSources sources).relations) :
    ∃ source ∈ sources, ∃ d ∈ TypeHeader.declarations (Source.stripped source.2),
      r ∈ relationsOf d := by
  rw [ofSources_eq] at related
  obtain ⟨source, given, inSource⟩ := List.mem_flatMap.1 related
  exact ⟨source, given, List.mem_flatMap.1 inSource⟩

/-- What holds of the names in a hierarchy, whatever sources it comes from. -/
structure Named (h : Hierarchy) : Prop where
  types : ∀ t ∈ h.types, t.decl.name ∈ Java.name.language
  sources : ∀ r ∈ h.relations, r.source ∈ Java.name.language
  targets : ∀ r ∈ h.relations, ∃ c, r.target.getLast? = some c ∧ isBlank c = false

theorem named_ofSources (sources : List (Path × Text)) : (ofSources sources).Named where
  types t there := by
    rw [ofSources_eq] at there
    obtain ⟨source, -, inSource⟩ := List.mem_flatMap.1 there
    obtain ⟨d, declared, rfl⟩ := List.mem_map.1 inSource
    exact TypeHeader.name_mem_language declared
  sources r there := by
    obtain ⟨source, -, d, declared, related⟩ := exists_declaration there
    rw [(of_mem_relationsOf related).1]
    exact TypeHeader.name_mem_language declared
  targets r there := by
    obtain ⟨source, -, d, declared, related⟩ := exists_declaration there
    obtain ⟨spelled, listed, same⟩ :=
      TypeHeader.exists_spelled declared (of_mem_relationsOf related).2
    rw [same]
    exact TypeList.getLast?_canonical (TypeHeader.visible_of_mem_spelledSupertypes listed)

/-! ## Lines -/

theorem newline_not_mem_name {name : Text} (named : name ∈ Java.name.language) : '\n' ∉ name := by
  intro there
  have other := Java.isNameChar_of_mem_name named '\n' there
  exact absurd other (by decide)

theorem newline_not_mem_typeLine (named : t.decl.name ∈ Java.name.language) :
    '\n' ∉ typeLine t := by
  have keyword : '\n' ∉ t.decl.kind.keyword.toList := by cases t.decl.kind <;> decide
  simp [typeLine, keyword, newline_not_mem_name named]

/-- A line for a relation holds the newlines of its supertype. -/
theorem count_newline_relationLine (named : r.source ∈ Java.name.language) :
    (relationLine r).count '\n' = r.target.count '\n' := by
  have source : r.source.count '\n' = 0 := List.count_eq_zero.2 (newline_not_mem_name named)
  have arrow : r.kind.arrow.toList.count '\n' = 0 := by cases r.kind <;> decide
  simp [relationLine, source, arrow]

theorem newline_not_mem_summaryLine (h : Hierarchy) : '\n' ∉ h.summaryLine := by
  have digits (n : Nat) : '\n' ∉ digitsText n := by
    intro there
    exact absurd (isDigit_of_mem_digitsText there) (by decide)
  show '\n' ∉ "// ".toList ++ digitsText h.types.length ++ " types, ".toList ++
    digitsText h.relations.length ++ " relations".toList
  simp [digits]

/-- The lines of which a drawing is made. -/
def drawnLines (h : Hierarchy) : List Text :=
  h.types.map typeLine ++ h.relations.map relationLine ++ [h.summaryLine]

theorem render_eq (some_type : h.types ≠ []) :
    h.render = h.drawnLines.flatMap fun l => l ++ ['\n'] := by
  have drawn : h.isEmpty = false := by simp [isEmpty, some_type]
  rw [render, drawn]
  rfl

theorem count_newline_drawnLines (named : h.Named) :
    h.drawnLines.flatten.count '\n' = (h.relations.flatMap (·.target)).count '\n' := by
  have types : (h.types.map typeLine).flatten.count '\n' = 0 := by
    rw [List.count_eq_zero, List.mem_flatten]
    rintro ⟨_, listed, there⟩
    obtain ⟨t, declared, rfl⟩ := List.mem_map.1 listed
    exact newline_not_mem_typeLine (named.types t declared) there
  have relations (rs : List Relation) (named : ∀ r ∈ rs, r.source ∈ Java.name.language) :
      (rs.map relationLine).flatten.count '\n' = (rs.flatMap (·.target)).count '\n' := by
    induction rs with
    | nil => rfl
    | cons r rs ih =>
      obtain ⟨first, others⟩ := List.forall_mem_cons.1 named
      rw [List.map_cons, List.flatten_cons, List.count_append,
        count_newline_relationLine first, ih others, List.flatMap_cons, List.count_append]
  have summary : h.summaryLine.count '\n' = 0 := List.count_eq_zero.2 h.newline_not_mem_summaryLine
  rw [drawnLines, List.flatten_append, List.flatten_append, List.count_append,
    List.count_append, types, relations _ named.sources, List.flatten_singleton, summary]
  omega

/-- No line of a drawing ends with white space. -/
theorem isBlank_getLast?_drawnLines (named : h.Named) {l : Text} (drawn : l ∈ h.drawnLines) :
    ∃ c, l.getLast? = some c ∧ isBlank c = false := by
  rcases List.mem_append.1 drawn with item | summary
  · rcases List.mem_append.1 item with type | relation
    · obtain ⟨t, declared, rfl⟩ := List.mem_map.1 type
      have language := named.types t declared
      have some_char := Java.ne_nil_of_mem_name language
      have last := List.getLast?_eq_some_getLast some_char
      have inName := Java.isNameChar_of_mem_name language _ (List.getLast_mem some_char)
      refine ⟨t.decl.name.getLast some_char, by simp [typeLine, List.getLast?_cons, last], ?_⟩
      exact isBlank_of_isDottedChar (by simp [Java.isDottedChar, inName])
    · obtain ⟨r, related, rfl⟩ := List.mem_map.1 relation
      obtain ⟨c, last, visible⟩ := named.targets r related
      exact ⟨c, by simp [relationLine, List.getLast?_cons, last], visible⟩
  · obtain rfl := List.mem_singleton.1 summary
    exact ⟨'s', List.getLast?_append_of_ne_nil _ (by decide), by decide⟩

/-- A drawing has one more line than it should for each newline in a supertype. -/
theorem length_lines_render (named : h.Named) (some_type : h.types ≠ []) :
    (Text.lines h.render).length = h.drawnLines.length +
      (h.relations.flatMap (·.target)).count '\n' := by
  rw [render_eq some_type, Text.length_lines ?_, Text.count_newline_flatMap,
    count_newline_drawnLines named]
  simp [drawnLines, Text.Ended]

theorem lines_render_iff (named : h.Named) (some_type : h.types ≠ []) :
    Text.lines h.render = h.drawnLines ↔ ∀ r ∈ h.relations, '\n' ∉ r.target := by
  constructor
  · intro same r related torn
    have length := length_lines_render named some_type
    rw [same] at length
    have newline : '\n' ∈ h.relations.flatMap (·.target) := List.mem_flatMap.2 ⟨r, related, torn⟩
    have positive := List.count_pos_iff.2 newline
    omega
  · intro untorn
    have none : h.drawnLines.flatten.count '\n' = 0 := by
      rw [count_newline_drawnLines named, List.count_eq_zero, List.mem_flatMap]
      rintro ⟨r, related, torn⟩
      exact untorn r related torn
    rw [render_eq some_type]
    refine Text.lines_flatMap (fun l drawn newline => ?_) fun l drawn ends => ?_
    · exact List.count_eq_zero.1 none (List.mem_flatten.2 ⟨l, drawn, newline⟩)
    · obtain ⟨c, last, visible⟩ := isBlank_getLast?_drawnLines named drawn
      obtain rfl := Option.some.inj (last.symm.trans ends)
      exact absurd visible (by decide)

/-- The types and relations are those the sources declare. A drawing has a line for each of them,
one for the summary, and one more for each newline in a supertype; without quotes these are the line
breaks of the header that the spelling does not absorb. -/
theorem render_lines_iff (sources : List (Path × Text))
    (some_type : (ofSources sources).types ≠ []) :
    let h := ofSources sources
    (h.types = sources.flatMap fun source =>
        (TypeHeader.declarations (Source.stripped source.2)).map (⟨source.1, ·⟩)) ∧
    (h.relations = sources.flatMap fun source =>
        (TypeHeader.declarations (Source.stripped source.2)).flatMap relationsOf) ∧
    (Text.lines h.render).length =
      h.types.length + h.relations.length + 1 + (h.relations.flatMap (·.target)).count '\n' ∧
    (Text.lines h.render = h.types.map typeLine ++ h.relations.map relationLine ++ [h.summaryLine] ↔
      ∀ r ∈ h.relations, '\n' ∉ r.target) ∧
    ∀ r ∈ h.relations, ∃ source ∈ sources, ∃ spelled ∈ TypeHeader.spelledSupertypes source.2,
      r.target = TypeList.canonical spelled ∧
      ((∀ c ∈ spelled, c ≠ '"' ∧ c ≠ '\'') →
        ('\n' ∈ r.target ↔ ∃ a b, spelled = a ++ '\n' :: b ∧ ¬ TypeList.Absorbs a b)) := by
  intro h
  have named : h.Named := named_ofSources sources
  have intended : h.drawnLines.length = h.types.length + h.relations.length + 1 := by
    simp [drawnLines, Nat.add_assoc]
  have declared : h = _ := ofSources_eq sources
  refine ⟨congrArg types declared, congrArg relations declared, ?_,
    lines_render_iff named some_type, ?_⟩
  · rw [length_lines_render named some_type, intended]
  · intro r there
    obtain ⟨source, given, d, declared, related⟩ := exists_declaration there
    obtain ⟨spelled, listed, same⟩ :=
      TypeHeader.exists_spelled declared (of_mem_relationsOf related).2
    refine ⟨source, given, spelled, listed, same, fun unquoted => ?_⟩
    rw [same]
    exact TypeList.newline_mem_canonical_iff (TypeHeader.visible_of_mem_spelledSupertypes listed)
      unquoted

/-- A header that is broken behind a comma between type arguments keeps its line. -/
theorem break_behind_comma_keeps_lines :
    let h := ofSources [(.ofString "A.java", "class A extends Base<K,\nV> \x7b\n\x7d\n".toList)]
    h.types ≠ [] ∧
      Text.lines h.render = h.types.map typeLine ++ h.relations.map relationLine ++
        [h.summaryLine] := by
  have some_type : (ofSources [(.ofString "A.java",
      "class A extends Base<K,\nV> \x7b\n\x7d\n".toList)]).types ≠ [] := by decide +kernel
  exact ⟨some_type, (render_lines_iff _ some_type).2.2.2.1.2 (by decide +kernel)⟩

/-- One that is broken before a type argument has its relation on two lines. -/
theorem broken_argument_tears_a_line :
    let h := ofSources [(.ofString "A.java", "class A extends Base<\nT> \x7b\n\x7d\n".toList)]
    h.types.length = 1 ∧ h.relations.length = 1 ∧
      Text.lines h.render = ["class A".toList, "A -> Base<".toList, "T>".toList,
        "// 1 types, 1 relations".toList] := by
  decide +kernel

end Hierarchy

end CodeGauge
