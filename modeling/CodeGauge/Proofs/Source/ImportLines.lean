import CodeGauge.Proofs.Pattern.Separation
import CodeGauge.Proofs.Source.TypeParams
import CodeGauge.Proofs.Source.WholeLines
import CodeGauge.Source.Import
import CodeGauge.Source.TypeHeader

/-!
# Sources that start with an import

An import statement on a line of its own is read alone, whatever follows it: it is one more import
(`ImportPath.ofSource_append`), no type header begins in it (`ImportPath.declarations_append`), and
it is the first line of the source (`ImportPath.trimmedLines_append`). No more is asked of the
segments of its path than that white space, quotes, dots, semicolons and the signs of comments do
not stand in them, so identifiers are segments (`ImportPath.ofIdentifiers`).
-/

namespace CodeGauge

/-- A character of a segment of an import path. -/
def Import.isSegmentChar (c : Char) : Bool := !isBlank c && !".;/*\"'".toList.contains c

/-- A dotted path, as an import statement writes it. -/
structure ImportPath where
  qualifier : List Text
  last : Text
  named : ∀ segment ∈ qualifier ++ [last], segment ≠ []
  plain : ∀ segment ∈ qualifier ++ [last], ∀ c ∈ segment, Import.isSegmentChar c = true

theorem Import.isSegmentChar_of_isNameChar {c : Char} (h : Java.isNameChar c = true) :
    isSegmentChar c = true := by
  have visible : isBlank c = false := isBlank_of_isDottedChar (by simp [Java.isDottedChar, h])
  have noSign : c ∉ ".;/*\"'".toList := by
    intro there
    have other :=
      List.all_eq_true.1 (by decide : ".;/*\"'".toList.all (!Java.isNameChar ·) = true) c there
    rw [h] at other
    contradiction
  rw [isSegmentChar, visible, List.contains_eq_mem, decide_eq_false noSign]
  rfl

namespace ImportPath

open Source Pattern

/-- The path of some identifiers. -/
def ofIdentifiers (qualifier : List Text) (last : Text)
    (h : ∀ name ∈ qualifier ++ [last], Java.isIdentifier name = true) : ImportPath where
  qualifier := qualifier
  last := last
  named name listed := by
    rintro rfl
    have identifier := h [] listed
    contradiction
  plain name listed _ there :=
    Import.isSegmentChar_of_isNameChar (isNameChar_of_isIdentifier (h name listed) there)

def keyword : Text := "import".toList

def text (p : ImportPath) : Text := Text.join ['.'] (p.qualifier ++ [p.last])

/-- The import without the end of its line. -/
def line (p : ImportPath) : Text := keyword ++ ' ' :: (p.text ++ [';'])

/-- The import on a line of its own. -/
def statement (p : ImportPath) : Text := p.line ++ ['\n']

variable {p : ImportPath} {c : Char} {t v : Text}

/-! ## The path -/

theorem mem_text (there : c ∈ p.text) : c = '.' ∨ Import.isSegmentChar c = true := by
  rcases Text.mem_join there with dot | ⟨segment, listed, char⟩
  · exact .inl (List.mem_singleton.1 dot)
  · exact .inr (p.plain segment listed c char)

/-- What cannot stand in a path. -/
theorem not_mem_text (dot : c ≠ '.') (other : Import.isSegmentChar c = false) : c ∉ p.text := by
  intro there
  rcases mem_text there with same | fits
  · exact dot same
  · rw [other] at fits
    contradiction

theorem isBlank_of_mem_text (there : c ∈ p.text) : isBlank c = false := by
  rcases mem_text there with rfl | fits
  · rfl
  · simp only [Import.isSegmentChar, Bool.and_eq_true, Bool.not_eq_true'] at fits
    exact fits.1

theorem segments_text (p : ImportPath) :
    Import.segments p.text = p.last :: p.qualifier.reverse := by
  have whole : ∀ segment ∈ p.qualifier ++ [p.last], ∀ d ∈ segment, (d == '.') = false := by
    intro segment listed d char
    refine beq_false_of_ne fun same => ?_
    have fits := p.plain segment listed d char
    rw [same] at fits
    contradiction
  rw [Import.segments, text, Text.splitWhere_join rfl (by simp) whole, List.reverse_concat]

theorem text_ne_nil (p : ImportPath) : p.text ≠ [] := by
  intro none
  have segments := p.segments_text
  rw [none] at segments
  exact p.named p.last (by simp) (List.cons.inj segments).1.symm

/-- A path has no white space in it. -/
theorem words_text (p : ImportPath) : Text.words p.text = [p.text] := by
  have solid : ∀ c ∈ p.text, isBlank c = false := fun _ there => isBlank_of_mem_text there
  rw [Text.words, Text.splitWhere_of_forall_not solid]
  simp [p.text_ne_nil]

/-! ## The line -/

theorem isBlank_of_mem_path (there : c ∈ p.text ++ [';']) : isBlank c = false := by
  rcases List.mem_append.1 there with inside | sign
  · exact isBlank_of_mem_text inside
  · rw [List.mem_singleton.1 sign]
    rfl

theorem mem_statement (there : c ∈ p.statement) :
    c ∈ keyword ∨ c ∈ [' ', ';', '\n'] ∨ c ∈ p.text := by
  simp only [statement, line, List.mem_append, List.mem_cons, List.not_mem_nil, or_false] at there ⊢
  tauto

/-- What stands neither in a path nor in the rest of the statement. -/
theorem not_mem_statement (dot : c ≠ '.') (other : Import.isSegmentChar c = false)
    (sign : c ∉ keyword ++ [' ', ';', '\n']) : c ∉ p.statement := by
  rw [List.mem_append, not_or] at sign
  intro there
  rcases mem_statement there with first | space | path
  · exact sign.1 first
  · exact sign.2 space
  · exact not_mem_text dot other path

theorem plain_statement (p : ImportPath) : Plain p.statement := by
  have slash : '/' ∉ p.statement := not_mem_statement (by decide) (by decide) (by decide)
  have double : '"' ∉ p.statement := not_mem_statement (by decide) (by decide) (by decide)
  have single : '\'' ∉ p.statement := not_mem_statement (by decide) (by decide) (by decide)
  constructor
  · intro d there
    have notDouble : d ≠ '"' := fun same => double (same ▸ there)
    have notSingle : d ≠ '\'' := fun same => single (same ▸ there)
    simp [isQuote, notDouble, notSingle]
  · exact fun opens => slash (opens.subset (by simp))
  · exact fun opens => slash (opens.subset (by simp))

theorem ended_statement (p : ImportPath) : Text.Ended p.statement := by
  intro d last
  rw [statement, List.getLast?_concat] at last
  exact (Option.some.inj last).symm

/-- Nothing of the statement is stripped, and what follows it is stripped as if it stood alone. -/
theorem stripped_append (p : ImportPath) (source : Text) :
    stripped (p.statement ++ source) = p.statement ++ stripped source := by
  rw [(p.plain_statement.wholeLines p.ended_statement).outside.stripped_append,
    p.plain_statement.stripped_eq]

theorem line_eq_concat (p : ImportPath) : p.line = (keyword ++ ' ' :: p.text) ++ [';'] := by
  rw [line, List.append_assoc, List.cons_append]

theorem visible_line (p : ImportPath) : Text.Visible p.line where
  first := ⟨'i', "mport".toList ++ ' ' :: (p.text ++ [';']), rfl, rfl⟩
  last := ⟨_, ';', p.line_eq_concat, rfl⟩

theorem newline_not_mem_line (p : ImportPath) : '\n' ∉ p.line := by
  intro there
  rcases List.mem_append.1 there with first | path
  · exact absurd first (by decide)
  · rcases List.mem_cons.1 path with space | inside
    · contradiction
    · have visible : isBlank '\n' = false := isBlank_of_mem_path inside
      contradiction

/-- The statement is the first line. -/
theorem trimmedLines_append (p : ImportPath) (t : Text) :
    Text.trimmedLines (p.statement ++ t) = p.line :: Text.trimmedLines t := by
  have one : Text.splitWhere (· == '\n') p.line = [p.line] :=
    Text.splitWhere_of_forall_not fun d there =>
    beq_false_of_ne fun same => p.newline_not_mem_line (same ▸ there)
  have last : p.line.getLast? = some ';' := by
    rw [line_eq_concat, List.getLast?_concat]
  have whole : Text.lines p.statement = [p.line] := by
    rw [Text.lines, statement, Text.splitWhere_append_sep rfl, one]
    simp [Text.splitWhere, Text.closeLines, Text.dropReturn, last]
  rw [Text.trimmedLines, Text.lines_append p.ended_statement, whole, List.singleton_append,
    List.map_cons, p.visible_line.trim_eq, Text.trimmedLines]

/-! ## Words in the line -/

theorem takeWhile_append_blank {u : Text} (solid : ∀ d ∈ u, isBlank d = false)
    (blank : isBlank c = true) (more : Text) : (u ++ c :: more).takeWhile (!isBlank ·) = u := by
  rw [List.takeWhile_append_of_pos (by simpa using solid)]
  simp [blank]

theorem isBlank_of_mem_keyword (there : c ∈ keyword) : isBlank c = false := by
  have visible := List.all_eq_true.1 (by decide : keyword.all (!isBlank ·) = true) c there
  simpa using visible

/-- A word with white space behind it is found in a statement only as the end of `import`, or up to
the semicolon. -/
theorem word_in_statement {w : Text} (solid : ∀ d ∈ w, isBlank d = false) (blank : isBlank c = true)
    (some_char : v ≠ []) (ends : v <:+ p.statement) (start : w ++ [c] <+: v ++ t) :
    w <:+ keyword ∨ w <:+ p.text ++ [';'] := by
  obtain ⟨more, same⟩ := start
  have word : (v ++ t).takeWhile (!isBlank ·) = w := by
    rw [← same, List.append_assoc, List.singleton_append, takeWhile_append_blank solid blank]
  have split : p.statement = keyword ++ ' ' :: ((p.text ++ [';']) ++ ['\n']) := by
    rw [statement, line, List.append_assoc, List.cons_append]
  obtain ⟨before, whole⟩ := ends
  rw [split] at whole
  rcases List.append_eq_append_iff.1 whole with ⟨u, first, rfl⟩ | ⟨u, rfl, rest⟩
  · -- The text starts in the keyword, so the word is what is left of it.
    left
    have inside : u <:+ keyword := ⟨before, first.symm⟩
    rw [List.append_assoc, List.cons_append,
      takeWhile_append_blank (fun d there => isBlank_of_mem_keyword (inside.subset there))
        rfl] at word
    exact word ▸ inside
  · right
    have later : v <:+ ' ' :: ((p.text ++ [';']) ++ ['\n']) := ⟨u, rest.symm⟩
    rcases List.suffix_cons_iff.1 later with rfl | later
    · rw [List.cons_append, List.takeWhile_cons_of_neg (by decide)] at word
      exact word ▸ List.nil_suffix
    · rcases List.suffix_concat_iff.1 later with none | ⟨x, rfl, inside⟩
      · exact absurd none some_char
      · rw [List.append_assoc, List.singleton_append,
          takeWhile_append_blank (fun d there => isBlank_of_mem_path (inside.subset there))
            rfl] at word
        exact word ▸ inside

/-! ## Imports -/

/-- A word with white space behind it neither holds a path with its semicolon nor stands in it. -/
theorem not_word_and_blank {w : Text} (blank : isBlank c = true) (sign : ';' ∉ w) (t : Text) :
    ¬ w ++ [c] <+: p.text ++ ';' :: t := by
  intro start
  have path : p.text ++ [';'] <+: p.text ++ ';' :: t := ⟨t, by simp⟩
  rcases List.prefix_or_prefix_of_prefix start path with inside | around
  · have visible :=
      isBlank_of_mem_path (inside.subset (List.mem_append_right w (List.mem_singleton_self c)))
    rw [blank] at visible
    contradiction
  · have there : ';' ∈ w ++ [c] :=
      around.subset (List.mem_append_right _ (List.mem_singleton_self _))
    rcases List.mem_append.1 there with inWord | same
    · exact sign inWord
    · rw [← List.mem_singleton.1 same] at blank
      contradiction

theorem gives_no_static (p : ImportPath) (t : Text) {k : Spot → Option Match} :
    Gives ((Pattern.slot .static (.word "static" ++ .blanks1)).firstThen k)
      (p.text ++ ';' :: t) none := by
  refine Gives.slot (o := none) (gives_none fun u v split taken => ?_)
  obtain ⟨w, rfl, gap, isGap, rfl⟩ := mem_language_append.1 taken
  obtain ⟨some_char, blank⟩ := mem_language_many1.1 isGap
  obtain ⟨c, gap, rfl⟩ := List.exists_cons_of_ne_nil some_char
  refine absurd ⟨gap ++ v, ?_⟩
    (not_word_and_blank (p := p) (w := "static".toList) (blank c (by simp)) (by decide) t)
  rw [split]
  simp

/-- The match of an import without its keyword `static`. -/
def importMatch (p : ImportPath) : Match :=
  (keyword ++ [' ']).map .char ++
    .opening .path :: (p.text.map .char ++ .closing .path :: [.char ';'])

theorem head?_text (p : ImportPath) (t : Text) : (p.text ++ t).head?.any isBlank = false := by
  obtain ⟨c, rest, same⟩ := List.exists_cons_of_ne_nil p.text_ne_nil
  have visible : isBlank c = false := isBlank_of_mem_text (p := p) (by simp [same])
  simp [same, visible]

theorem matchAt_line (p : ImportPath) (t : Text) :
    Import.pattern.matchAt ⟨[], p.line ++ t⟩ = some p.importMatch := by
  have close :
      Gives ((Pattern.char ';').firstThen fun _ => some []) (';' :: t) (some [.char ';']) :=
    Gives.char (o := some []) ';' fun _ => rfl
  have inPath : ∀ c ∈ p.text, (c != ';') = true := fun c there =>
    bne_iff_ne.2 fun same => not_mem_text (p := p) (by decide) (by decide) (same ▸ there)
  have path : Gives ((Pattern.slot .path (.many1 (· != ';'))).firstThen _) _ _ :=
    Gives.slot (Gives.many1 p.text_ne_nil inPath (by rfl) (close.map (.closing .path :: ·)))
  have gap := Gives.many1 (u := [' ']) (by simp) (by simp [isBlank]) (p.head?_text _)
    ((p.gives_no_static t).skip path)
  have whole := Gives.literal keyword gap []
  have text : p.line ++ t = keyword ++ ([' '] ++ (p.text ++ ';' :: t)) := by
    simp only [line, List.append_assoc, List.cons_append, List.nil_append]
  have edge : Spot.onWordEdge ⟨[], keyword ++ ([' '] ++ (p.text ++ ';' :: t))⟩ = true := rfl
  rw [← firstThen_some, Import.pattern, text]
  simp only [firstThen_append, firstThen_wordEdge, edge, if_true]
  refine whole.trans ?_
  simp [importMatch]

theorem text_importMatch (p : ImportPath) : p.importMatch.text = p.line := by
  simp [importMatch, line]

/-- The statement is one more import, without `static` and with the path as it is written. -/
theorem ofSource_append (p : ImportPath) (t : Text) :
    Import.ofSource (p.statement ++ t) = ⟨false, p.text⟩ :: Import.ofSource t := by
  have skipped : Import.pattern.matchAt ⟨p.line.reverse ++ [], '\n' :: t⟩ = none := by
    rw [← firstThen_some, Import.pattern]
    simp only [firstThen_append]
    refine gives_none (p := wordEdge) (fun u v split taken => ?_) _
    obtain rfl : u = [] := taken
    obtain rfl : '\n' :: t = v := split
    exact gives_literal_none (not_prefix_of_ne (c := 'i') (by decide) "mport".toList t).1
  have found : Import.pattern.findAll (p.statement ++ t) =
      p.importMatch :: Import.pattern.findAll t := by
    rw [statement, List.append_assoc, List.singleton_append, findAll_eq_findFrom,
      findFrom_match p.visible_line.ne_nil p.text_importMatch (p.matchAt_line _),
      findFrom_skip skipped, findFrom_eq_findAll rfl rfl]
  have path : p.importMatch.part .path = p.text := Match.part_marked _ _ (by simp)
  have notStatic : p.importMatch.part? .static = none := Match.part?_absent (by simp [importMatch])
  rw [Import.ofSource, found, List.map_cons, path, notStatic]
  rfl

/-! ## Type headers -/

/-- A type header begins with one of the three keywords and white space behind it. -/
theorem matchAt_header_eq_none
    (h : ∀ w ∈ ["class", "interface", "enum"], ∀ c, isBlank c = true → ¬ w.toList ++ [c] <+: t)
    (before : Text) : TypeHeader.pattern.matchAt ⟨before, t⟩ = none := by
  rw [← firstThen_some, TypeHeader.pattern]
  simp only [firstThen_append]
  refine gives_none (p := wordEdge) (fun u v split taken => ?_) before
  obtain rfl : u = [] := taken
  obtain rfl : t = v := split
  refine Gives.slot (o := none) (gives_none fun u v split taken => Gives.map _ (o := none) ?_)
  refine gives_none fun gap rest split' isGap => ?_
  obtain ⟨w, listed, rfl⟩ := mem_language_anyWord taken
  obtain ⟨some_char, blank⟩ := mem_language_many1.1 isGap
  obtain ⟨c, gap, rfl⟩ := List.exists_cons_of_ne_nil some_char
  refine absurd ⟨gap ++ rest, ?_⟩ (h w listed c (blank c (by simp)))
  rw [split, split']
  simp

/-- No type header begins in an import. -/
theorem declarations_append (p : ImportPath) (t : Text) :
    TypeHeader.declarations (p.statement ++ t) = TypeHeader.declarations t := by
  have known : ∀ w ∈ ["class", "interface", "enum"], w.toList.all (!isBlank ·) = true ∧
      ¬ w.toList <:+ keyword ∧ w.toList ≠ [] ∧ ';' ∉ w.toList := by decide
  have none (v : Text) (some_char : v ≠ []) (ends : v <:+ p.statement) (before : Text) :
      TypeHeader.pattern.matchAt ⟨before, v ++ t⟩ = none := by
    refine matchAt_header_eq_none (fun w listed c blank start => ?_) before
    obtain ⟨solid, other, some_letter, sign⟩ := known w listed
    rcases word_in_statement (by simpa using solid) blank some_char ends start with first | path
    · exact other first
    · rcases List.suffix_concat_iff.1 path with empty | ⟨u, same, -⟩
      · exact some_letter empty
      · exact sign (by simp [same])
  have edge : (p.statement.reverse ++ []).head?.any isWordChar = false := by
    rw [statement, List.reverse_concat]
    rfl
  rw [TypeHeader.declarations, findAll_eq_findFrom, findFrom_pass none,
    findFrom_eq_findAll rfl edge, TypeHeader.declarations]

end ImportPath

end CodeGauge
