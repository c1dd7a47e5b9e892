import Mathlib.Logic.Relation
import Mathlib.Order.Bounds.Basic
import CodeGauge.Metric.Afferent
import CodeGauge.Metric.Cognitive
import CodeGauge.Metric.Cohesion
import CodeGauge.Metric.Efferent
import CodeGauge.Metric.Instability
import CodeGauge.Metric.WeightedMethods
import CodeGauge.Proofs.Source.Regions

/-!
# What comments and literals say does not count

A comment leaves its newlines behind when a source is stripped, a literal its two quotes, and a text
block both, whatever else is written in them.

* `strip_lineComment`, `strip_blockComment`, `strip_literal`, `strip_textBlock`: from inside a body,
  stripping goes on in the code right after its end;
* `contents_are_invisible`: so a body can be exchanged for another one with the same newlines, and
  no metric that reads the stripped source changes.
-/

namespace CodeGauge

namespace Source

/-- The newlines of a text. -/
def newlines (t : Text) : Text := t.filter (· = '\n')

/-! ## Bodies -/

theorem strip_lineComment {c : Text} (oneLine : '\n' ∉ c) (q : Text) :
    strip .lineComment (c ++ '\n' :: q) = '\n' :: strip .code q := by
  induction c with
  | nil => simp [strip]
  | cons x c ih =>
    simp only [List.mem_cons, not_or] at oneLine
    rw [List.cons_append, strip, if_neg (Ne.symm oneLine.1)]
    exact ih oneLine.2

/-- In a block comment, where a star just before must not make a closing of the first character. -/
theorem strip_blockComment {c : Text} (unclosed : ¬ ['*', '/'] <:+: c) (star : Bool)
    (apart : star = true → ∀ rest, c ≠ '/' :: rest) (q : Text) :
    strip (.blockComment star) (c ++ '*' :: '/' :: q) = newlines c ++ strip .code q := by
  induction c generalizing star with
  | nil => simp [strip, newlines]
  | cons x c ih =>
    have inside : (star && decide (x = '/')) = false := by
      cases star with
      | false => rfl
      | true => simpa using fun slash : x = '/' => apart rfl c (by rw [slash])
    have later : ¬ ['*', '/'] <:+: c := fun there => unclosed (List.infix_cons there)
    rw [List.cons_append, strip, inside]
    by_cases newline : x = '\n'
    · simp [newline, newlines, ih later false (by simp)]
    · have next : decide (x = '*') = true → ∀ rest, c ≠ '/' :: rest := by
        rintro isStar rest rfl
        apply unclosed
        rw [of_decide_eq_true isStar]
        exact (List.prefix_append ['*', '/'] rest).isInfix
      simp [newline, newlines, ih later _ next]

/-- What may stand in a literal with the given delimiter: escape pairs and other characters. -/
inductive LiteralBody (delimiter : Char) : Text → Prop where
  | nil : LiteralBody delimiter []
  | plain {c : Char} {rest : Text} (other : c ≠ delimiter ∧ c ≠ '\\' ∧ c ≠ '\n') :
      LiteralBody delimiter rest → LiteralBody delimiter (c :: rest)
  | escape {c : Char} {rest : Text} (inLine : c ≠ '\n') :
      LiteralBody delimiter rest → LiteralBody delimiter ('\\' :: c :: rest)

theorem strip_literal {d : Char} (quote : d = '"' ∨ d = '\'') {c : Text} (body : LiteralBody d c)
    (q : Text) : strip (.literal d false) (c ++ d :: q) = strip .code q := by
  have visible : d ≠ '\n' ∧ d ≠ '\\' := by
    rcases quote with rfl | rfl <;> decide
  induction body with
  | nil => simp [strip, visible]
  | plain other _ ih => simp [strip, other, ih]
  | escape inLine _ ih => simp [strip, inLine, ih]

/-- Which characters of a text are quotes that are not escaped. -/
def openQuotes : Bool → Text → List Bool
  | _, [] => []
  | escaped, c :: rest => (!escaped && c = '"') :: openQuotes (!escaped && c = '\\') rest

/-- The places of three marks in a row. -/
def threes (marks : List Bool) : Set Nat := {i | [true, true, true] <+: marks.drop i}

theorem mem_threes {marks : List Bool} {i : Nat} :
    i ∈ threes marks ↔ [true, true, true] <+: marks.drop i := Iff.rfl

theorem isLeast_threes_append (before : List Bool) {marks : List Bool} {i : Nat}
    (h : IsLeast (threes (before ++ marks)) (before.length + i)) : IsLeast (threes marks) i := by
  have shift (j : Nat) : before.length + j ∈ threes (before ++ marks) ↔ j ∈ threes marks := by
    rw [mem_threes, mem_threes, List.drop_length_add_append]
  refine ⟨(shift i).1 h.1, ?_⟩
  intro j hj
  have := h.2 ((shift j).2 hj)
  omega

/-- What may stand in a text block: with three quotes after it, these are the first three quotes in
a row that are not escaped. -/
def TextBlockBody (c : Text) : Prop :=
  IsLeast (threes (openQuotes false (c ++ ['"', '"', '"']))) c.length

instance (c : Text) : Decidable (TextBlockBody c) :=
  decidable_of_iff
    ([true, true, true] <+: (openQuotes false (c ++ ['"', '"', '"'])).drop c.length ∧
      ∀ i < c.length, ¬ [true, true, true] <+: (openQuotes false (c ++ ['"', '"', '"'])).drop i)
    (and_congr_right fun _ => forall_congr' fun _ => by
      rw [mem_threes, imp_not_comm, Nat.not_lt])

/-- In a text block after so many quotes in a row, which count for the row that is looked for. -/
theorem strip_textBlock {c : Text} (n : Nat) (escaped : Bool)
    (body : IsLeast (threes (List.replicate n true ++ openQuotes escaped (c ++ ['"', '"', '"'])))
      (n + c.length)) (q : Text) :
    strip (.textBlock n escaped) (c ++ '"' :: '"' :: '"' :: q) = newlines c ++ strip .code q := by
  induction c generalizing n escaped with
  | nil =>
    -- The row starts right here, so it has not started before and its first quote is not escaped.
    have closing := body.1
    cases escaped with
    | true => simp [mem_threes, openQuotes] at closing
    | false =>
      have start : 0 ∈ threes (List.replicate n true ++ openQuotes false ['"', '"', '"']) := by
        refine ⟨List.replicate n true, ?_⟩
        show List.replicate 3 true ++ _ = List.replicate n true ++ List.replicate 3 true
        rw [List.replicate_append_replicate, List.replicate_append_replicate, Nat.add_comm]
      obtain rfl : n = 0 := by
        have := body.2 start
        simp at this
        omega
      simp [strip, newlines]
  | cons x c ih =>
    -- A character that is no open quote ends the row.
    have reset (next : Bool) (marks : openQuotes escaped (x :: c ++ ['"', '"', '"']) =
        false :: openQuotes next (c ++ ['"', '"', '"'])) :
        strip (.textBlock 0 next) (c ++ '"' :: '"' :: '"' :: q) = newlines c ++ strip .code q := by
      apply ih
      rw [List.replicate_zero, List.nil_append, Nat.zero_add]
      apply isLeast_threes_append (List.replicate n true ++ [false])
      rw [marks] at body
      simpa [Nat.add_assoc, Nat.add_comm 1] using body
    by_cases newline : x = '\n'
    · have := reset false (by cases escaped <;> simp [openQuotes, newline])
      simp [strip, newline, newlines, this]
    · rw [List.cons_append, strip, if_neg newline]
      have silent : newlines (x :: c) = newlines c := by simp [newlines, newline]
      rw [silent]
      cases escaped with
      | true => exact reset false rfl
      | false =>
        rw [if_neg (by simp)]
        by_cases backslash : x = '\\'
        · rw [if_pos backslash]
          exact reset true (by simp [openQuotes, backslash])
        · rw [if_neg backslash]
          by_cases quote : x = '"'
          · rw [if_pos quote]
            have row : List.replicate n true ++ openQuotes false (x :: c ++ ['"', '"', '"']) =
                List.replicate (n + 1) true ++ openQuotes false (c ++ ['"', '"', '"']) := by
              simp [openQuotes, quote, List.replicate_succ']
            have further : IsLeast (threes (List.replicate (n + 1) true ++
                openQuotes false (c ++ ['"', '"', '"']))) (n + 1 + c.length) := by
              rw [← row, Nat.add_assoc, Nat.add_comm 1]
              exact body
            have short : n ≠ 2 := by
              rintro rfl
              have start : 0 ∈ threes (List.replicate 3 true ++
                  openQuotes false (c ++ ['"', '"', '"'])) := List.prefix_append _ _
              have := further.2 start
              omega
            rw [if_neg short]
            exact ih _ _ further
          · rw [if_neg quote]
            exact reset false (by simp [openQuotes, backslash, quote])

/-! ## Comments and literals in a source -/

/-- A text that is empty or ends in white space, outside comments and literals. -/
structure Outside (p : Text) : Prop where
  region : regionAfter .code p = .code
  blank : ∀ c ∈ p.getLast?, isBlank c = true

instance (p : Text) : Decidable (Outside p) :=
  -- The last character is looked at, not all that there are.
  decidable_of_iff (regionAfter .code p = .code ∧ p.getLast?.all isBlank = true)
    ⟨fun h => ⟨h.1, (Option.all_eq_true _ _).1 h.2⟩,
      fun h => ⟨h.region, (Option.all_eq_true _ _).2 h.blank⟩⟩

theorem Outside.isSeam {p : Text} (h : Outside p) : IsSeam p := by
  intro c isLast
  have blank := h.blank c isLast
  constructor <;> rintro rfl <;> simp [isBlank] at blank

theorem Outside.stripped_append {p : Text} (h : Outside p) (q : Text) :
    stripped (p ++ q) = stripped p ++ stripped q := by
  unfold stripped
  rw [strip_append h.isSeam, h.region]

/-- A comment or literal that stands before a text, and what is left of it. An empty literal must
not be taken for the start of a text block. -/
inductive Hides : Text → Text → Text → Prop where
  | blockComment {c : Text} (unclosed : ¬ ['*', '/'] <:+: c) (q : Text) :
      Hides (['/', '*'] ++ c ++ ['*', '/']) (newlines c) q
  | lineComment {c : Text} (oneLine : '\n' ∉ c) (q : Text) :
      Hides (['/', '/'] ++ c ++ ['\n']) ['\n'] q
  | literal {d : Char} (quote : d = '"' ∨ d = '\'') {c : Text} (body : LiteralBody d c) {q : Text}
      (apart : d = '"' → c ≠ [] ∨ q.head? ≠ some '"') : Hides ([d] ++ c ++ [d]) [d, d] q
  | textBlock {c : Text} (body : TextBlockBody c) (q : Text) :
      Hides (['"', '"', '"'] ++ c ++ ['"', '"', '"']) (['"', '"'] ++ newlines c) q

theorem strip_open_literal {d : Char} (quote : d = '"' ∨ d = '\'') {c : Text}
    (body : LiteralBody d c) {q : Text} (apart : d = '"' → c ≠ [] ∨ q.head? ≠ some '"') :
    strip .code (d :: (c ++ d :: q)) = d :: d :: strip (.literal d false) (c ++ d :: q) := by
  rcases quote with rfl | rfl
  · apply strip_quote
    intro more same
    cases body with
    | nil =>
      rcases apart rfl with some_left | other
      · exact some_left rfl
      · simp at same
        simp [same] at other
    | plain other => simp_all
    | escape => simp at same
  · rw [strip]

theorem Hides.stripped_append {span left q : Text} (h : Hides span left q) :
    stripped (span ++ q) = left ++ stripped q := by
  unfold stripped
  cases h with
  | blockComment unclosed => simp [strip, strip_blockComment unclosed]
  | lineComment oneLine => simp [strip, strip_lineComment oneLine]
  | literal quote body apart =>
    have opened := strip_open_literal quote body apart
    simp [opened, strip_literal quote body]
  | textBlock body =>
    have closed := strip_textBlock 0 false (by simpa [TextBlockBody] using body) q
    simp [strip, closed]

/-- Whether one source is another with a comment or literal exchanged for one that leaves as
much. -/
def Rewords (s t : Text) : Prop :=
  ∃ p span span' left q, Outside p ∧ Hides span left q ∧ Hides span' left q ∧
    s = p ++ span ++ q ∧ t = p ++ span' ++ q

theorem Rewords.stripped_eq {s t : Text} (h : Rewords s t) : stripped s = stripped t := by
  obtain ⟨p, span, span', left, q, outside, hides, hides', rfl, rfl⟩ := h
  rw [List.append_assoc, List.append_assoc, outside.stripped_append, outside.stripped_append,
    hides.stripped_append, hides'.stripped_append]

/-- Whether two sources give the same readings, and as siblings make others give the same
readings. -/
structure ReadAlike (s t : Text) : Prop where
  dependencies : Efferent.dependencies s = Efferent.dependencies t
  cognitive : Cognitive.complexity s = Cognitive.complexity t
  methods : WeightedMethods.count s = WeightedMethods.count t
  lack : Cohesion.lack s = Cohesion.lack t
  tight : Cohesion.tight s = Cohesion.tight t
  afferent : Afferent.coupling s = Afferent.coupling t
  instability : Instability.ofSources s = Instability.ofSources t
  afferentOf : ∀ source before after,
    Afferent.coupling source (before ++ s :: after) =
      Afferent.coupling source (before ++ t :: after)
  instabilityOf : ∀ source before after,
    Instability.ofSources source (before ++ s :: after) =
      Instability.ofSources source (before ++ t :: after)

/-- All these readings are taken from the stripped source. -/
theorem ReadAlike.of_stripped {s t : Text} (h : stripped s = stripped t) : ReadAlike s t := by
  have shape : Cohesion.shapeOf s = Cohesion.shapeOf t := congrArg ClassShape.ofSource h
  constructor
  · simp only [Efferent.dependencies, h]
  · simp only [Cognitive.complexity, Cognitive.total, Cognitive.linesOf, h]
  · simp only [WeightedMethods.count, h]
  · unfold Cohesion.lack
    rw [shape]
  · unfold Cohesion.tight
    rw [shape]
  · funext siblings
    simp only [Afferent.coupling, h]
  · funext siblings
    simp only [Instability.ofSources, h]
  · intro source before after
    have same (name : Text) : Afferent.refersTo name s = Afferent.refersTo name t := by
      simp only [Afferent.refersTo, h]
    simp only [Afferent.coupling, List.countP_append, List.countP_cons, same]
  · intro source before after
    have same (name : Text) : Instability.refersTo name s = Instability.refersTo name t := by
      simp only [Instability.refersTo, h]
    simp only [Instability.ofSources, List.countP_append, List.countP_cons, same]

/-- Whatever is written in a comment, a literal or a text block that starts outside all others,
nothing of it is left but its newlines and the quotes around it. So two sources that differ in such
contents alone, in however many places, have the same stripped text and read alike. -/
theorem contents_are_invisible :
    (∀ p q, Outside p →
      (∀ c, ¬ ['*', '/'] <:+: c →
        stripped (p ++ ['/', '*'] ++ c ++ ['*', '/'] ++ q) =
          stripped p ++ newlines c ++ stripped q) ∧
      (∀ c, '\n' ∉ c →
        stripped (p ++ ['/', '/'] ++ c ++ ['\n'] ++ q) = stripped p ++ ['\n'] ++ stripped q) ∧
      (∀ d c, d = '"' ∨ d = '\'' → LiteralBody d c →
        (d = '"' → c ≠ [] ∨ q.head? ≠ some '"') →
          stripped (p ++ [d] ++ c ++ [d] ++ q) = stripped p ++ [d, d] ++ stripped q) ∧
      (∀ c, TextBlockBody c →
        stripped (p ++ ['"', '"', '"'] ++ c ++ ['"', '"', '"'] ++ q) =
          stripped p ++ ['"', '"'] ++ newlines c ++ stripped q)) ∧
    ∀ s t, Relation.ReflTransGen Rewords s t → stripped s = stripped t ∧ ReadAlike s t := by
  constructor
  · intro p q outside
    have hidden {span left : Text} (h : Hides span left q) :
        stripped (p ++ (span ++ q)) = stripped p ++ (left ++ stripped q) := by
      rw [outside.stripped_append, h.stripped_append]
    refine ⟨?_, ?_, ?_, ?_⟩
    · intro c unclosed
      simpa using hidden (.blockComment unclosed q)
    · intro c oneLine
      simpa using hidden (.lineComment oneLine q)
    · intro d c quote body apart
      simpa using hidden (.literal quote body apart)
    · intro c body
      simpa using hidden (.textBlock body q)
  · intro s t reworded
    have same : stripped s = stripped t := by
      induction reworded with
      | refl => rfl
      | tail _ last ih => rw [ih, last.stripped_eq]
    exact ⟨same, .of_stripped same⟩

/-- A block comment that begins with a slash and ends in stars, a line comment with openings in it,
a literal with an escaped delimiter, and a text block with an escaped quote before two others. The
two comments can be exchanged for each other. -/
theorem hard_contents_are_invisible :
    let p := "x = 1; // one\n".toList
    let q := "\"\";".toList
    let comment := "/\n**".toList
    let note := "/* \"".toList
    let literal := "\\\"//".toList
    let block := "a\\\"\"\"\nb".toList
    Outside p ∧
    (¬ ['*', '/'] <:+: comment ∧
      stripped (p ++ ['/', '*'] ++ comment ++ ['*', '/'] ++ q) = "x = 1; \n\n\"\";".toList) ∧
    ('\n' ∉ note ∧
      stripped (p ++ ['/', '/'] ++ note ++ ['\n'] ++ q) = "x = 1; \n\n\"\";".toList) ∧
    (LiteralBody '"' literal ∧
      stripped (p ++ ['"'] ++ literal ++ ['"'] ++ q) = "x = 1; \n\"\"\"\";".toList) ∧
    (TextBlockBody block ∧
      stripped (p ++ ['"', '"', '"'] ++ block ++ ['"', '"', '"'] ++ q) =
        "x = 1; \n\"\"\n\"\";".toList) ∧
    ReadAlike (p ++ ['/', '*'] ++ comment ++ ['*', '/'] ++ q)
      (p ++ ['/', '/'] ++ note ++ ['\n'] ++ q) := by
  intro p q comment note literal block
  have outside : Outside p := by decide
  have unclosed : ¬ ['*', '/'] <:+: comment := by decide
  have oneLine : '\n' ∉ note := by decide
  have body : LiteralBody '"' literal :=
    .escape (by decide) (.plain (by decide) (.plain (by decide) .nil))
  have blockBody : TextBlockBody block := by decide
  obtain ⟨inComment, inNote, inLiteral, inBlock⟩ := contents_are_invisible.1 p q outside
  have reworded : Rewords (p ++ ['/', '*'] ++ comment ++ ['*', '/'] ++ q)
      (p ++ ['/', '/'] ++ note ++ ['\n'] ++ q) :=
    ⟨p, _, _, _, q, outside, .blockComment unclosed q, .lineComment oneLine q, by simp, by simp⟩
  refine ⟨outside, ⟨unclosed, ?_⟩, ⟨oneLine, ?_⟩, ⟨body, ?_⟩, ⟨blockBody, ?_⟩, ?_⟩
  · rw [inComment comment unclosed]
    decide
  · rw [inNote note oneLine]
    decide
  · rw [inLiteral '"' literal (.inl rfl) body fun _ => .inl (by decide)]
    decide
  · rw [inBlock block blockBody]
    decide
  · exact (contents_are_invisible.2 _ _ (.single reworded)).2

end Source

end CodeGauge
