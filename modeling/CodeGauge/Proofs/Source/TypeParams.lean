import CodeGauge.Proofs.Source.Clauses

/-!
# The type parameters of a header

Parameters stand in angle brackets, and so do the arguments of the types that bound them. The
pattern of a header takes as little as possible up to a closing bracket, so it has to be shown that
the header cannot go on behind one that closes inside the parameters (`guarded_params`). Then the
parameters are read to their end (`gives_params`).
-/

namespace CodeGauge

open Pattern (Gives)

/-! ## Parameters as they are written -/

/-- Whether the word `extends` stands behind a closing bracket. -/
def extendsAfterBracket : Text → Bool
  | [] => false
  | c :: rest =>
    (c = '>' && rest.head?.any isBlank && Text.firstWord rest = "extends".toList)
      || extendsAfterBracket rest

/-- A type parameter with its bounds. In the arguments of a bound only wildcards have bounds of
their own, so what comes before `extends` is no closing bracket. -/
structure TypeParam where
  name : Text
  bounds : List TypeRef
  identifier : Java.isIdentifier name = true
  wildcards : ∀ b ∈ bounds, extendsAfterBracket b.text = false

/-- How a type parameter is written. -/
def TypeParam.text (p : TypeParam) : Text :=
  match p.bounds with
  | [] => p.name
  | bounds => p.name ++ " extends ".toList ++ Text.join " & ".toList (bounds.map TypeRef.text)

/-- How type parameters are written, if there are any. -/
def paramsText : List TypeParam → Text
  | [] => []
  | params => '<' :: (Text.join ", ".toList (params.map TypeParam.text) ++ ['>'])

/-- The characters of an identifier can stand in a name. -/
theorem isNameChar_of_isIdentifier {name : Text} (h : Java.isIdentifier name = true) {c : Char}
    (there : c ∈ name) : Java.isNameChar c = true := by
  obtain ⟨first, rest, rfl⟩ := List.exists_cons_of_ne_nil (List.ne_nil_of_mem there)
  obtain ⟨start, others⟩ : Java.isNameStart first = true ∧ _ := by
    simpa [Java.isIdentifier] using h
  have ok : c.isAlphanum = true ∨ c = '_' ∨ c = '$' := by
    rcases List.mem_cons.1 there with rfl | there
    · have : c.isAlpha = true ∨ c = '_' ∨ c = '$' := by
        simpa [Java.isNameStart, or_assoc] using start
      exact this.imp_left fun letter => by simp [Char.isAlphanum, letter]
    · simpa [or_assoc] using others c there
  rcases ok with alphanum | rfl | rfl
  · simp [Java.isNameChar, Text.isWordChar_of_isAlphanum alphanum]
  · decide
  · decide

namespace TypeHeader

/-! ## Where a header cannot go on inside its parameters -/

/-- Whether no clause and no body starts behind a closing bracket of a text, given what follows
it. -/
def Guarded (t z : Text) : Prop := ∀ a v, t = a ++ '>' :: v → Blocked clauseWords (v ++ z)

namespace Guarded

variable {t u z : Text}

theorem of_not_mem (none : '>' ∉ t) : Guarded t z := by
  rintro a v rfl
  simp at none

theorem append (h : Guarded t (u ++ z)) (g : Guarded u z) : Guarded (t ++ u) z := by
  intro a v same
  rcases List.append_eq_append_iff.1 same with ⟨b, rfl, later⟩ | ⟨b, rfl, split⟩
  · exact g b v later
  · cases b with
    | nil => exact g [] v (by simpa using split.symm)
    | cons c b =>
      obtain ⟨rfl, rfl⟩ : '>' = c ∧ v = b ++ u := by simpa using split
      simpa using h a b rfl

/-- With separators that block, it is enough to look at each item. -/
theorem join {sep : Text} (open_sep : '>' ∉ sep) (blocks : ∀ z, Blocked clauseWords (sep ++ z))
    {items : List Text} (each : ∀ item ∈ items, ∀ z, Blocked clauseWords z → Guarded item z)
    (blocked : Blocked clauseWords z) : Guarded (Text.join sep items) z := by
  induction items with
  | nil => exact of_not_mem (by simp [Text.join, List.intercalate])
  | cons item items ih =>
    cases items with
    | nil => simpa [Text.join, List.intercalate] using each item (by simp) z blocked
    | cons next items =>
      rw [Text.join_cons_cons]
      refine append (each item (by simp) _ ?_) (append (of_not_mem open_sep) ?_)
      · rw [List.append_assoc]
        exact blocks _
      · exact ih fun other there => each other (by simp [there])

end Guarded

theorem firstWord_of_extendsAfterBracket {a v : Text}
    (h : extendsAfterBracket (a ++ '>' :: v) = false) (blank : v.head?.any isBlank = true) :
    Text.firstWord v ≠ "extends".toList := by
  induction a with
  | nil =>
    intro word
    simp [extendsAfterBracket, blank, word] at h
  | cons c a ih =>
    rw [List.cons_append, extendsAfterBracket, Bool.or_eq_false_iff] at h
    exact ih h.2

/-- The word behind a bracket that closes in a bound does not start a clause. -/
theorem firstWord_bound {r : TypeRef} (wildcards : extendsAfterBracket r.text = false) {a v : Text}
    (same : r.text = a ++ '>' :: v) (blank : v.head?.any isBlank = true)
    (visible : Text.trimStart v ≠ []) : Text.firstWord v ∉ clauseWords := by
  have listed := Text.firstWord_mem_words_append blank visible (a ++ ['>'])
  rw [List.append_assoc, List.singleton_append, ← same] at listed
  have noExtends := firstWord_of_extendsAfterBracket (same ▸ wildcards) blank
  obtain ⟨noImplements, noPermits⟩ := r.noClause _ listed
  rw [mem_clauseWords]
  rintro (word | word | word)
  · exact noExtends word
  · exact noImplements word
  · exact noPermits word

/-- No clause and no body starts behind a bracket that closes in a bound. -/
theorem guarded_bound {r : TypeRef} (wildcards : extendsAfterBracket r.text = false) {z : Text}
    (blocked : Blocked clauseWords z) : Guarded r.text z := by
  intro a v same
  by_cases last : v = []
  · simpa [last] using blocked
  obtain ⟨v, d, rfl⟩ := (List.eq_nil_or_concat' v).resolve_left last
  obtain rfl : d = '>' := by
    have ends := r.getLast?_text (by simp [same])
    rw [same] at ends
    simpa [List.getLast?_append, List.getLast?_cons] using ends
  have visible : Text.trimStart (v ++ ['>']) ≠ [] := by
    have whole : Text.Visible ((a ++ ['>']) ++ (v ++ ['>'])) := by simpa [same] using r.visible
    exact whole.trimStart_suffix last
  constructor
  · refine brace_of_not_mem visible (fun brace => (r.mem_text ?_).1 rfl) z
    rw [same]
    exact List.mem_append_right a (List.mem_cons_of_mem _ brace)
  · intro blank word
    rw [List.append_assoc, List.singleton_append] at blank word
    rcases Text.firstWord_append (by decide : isBlank '>' = false) v with stops | goesOn
    · -- The word ends inside the bound, so it is one of the words of the bound.
      rw [stops, ← stops []] at word
      have blank : (v ++ ['>']).head?.any isBlank = true := by cases v <;> simpa using blank
      exact firstWord_bound wildcards same blank visible word
    · have free : ∀ w ∈ clauseWords, '>' ∉ w := by decide
      exact free _ word (goesOn z)

theorem guarded_param (p : TypeParam) {z : Text} (blocked : Blocked clauseWords z) :
    Guarded p.text z := by
  have name : '>' ∉ p.name := fun there =>
    absurd (isNameChar_of_isIdentifier p.identifier there) (by decide)
  unfold TypeParam.text
  split
  · exact .of_not_mem name
  · rename_i bounds _
    refine .append (.of_not_mem (by simpa using name)) (.join (by decide) ?_ ?_ blocked)
    · intro z
      exact blocked_of_head (c := '&') rfl (by decide) (by decide)
    · intro item there z blocked
      obtain ⟨r, member, rfl⟩ := List.mem_map.1 there
      exact guarded_bound (p.wildcards r member) blocked

theorem guarded_params (params : List TypeParam) (z : Text) :
    Guarded (Text.join ", ".toList (params.map TypeParam.text)) ('>' :: z) := by
  refine .join (by decide) ?_ ?_ ?_
  · intro z
    exact blocked_of_head (c := ',') rfl (by decide) (by decide)
  · intro item there z blocked
    obtain ⟨p, _, rfl⟩ := List.mem_map.1 there
    exact guarded_param p blocked
  · exact blocked_of_head (c := '>') rfl (by decide) (by decide)

theorem ne_brace_of_mem_params {params : List TypeParam} {c : Char}
    (there : c ∈ Text.join ", ".toList (params.map TypeParam.text)) : c ≠ '{' := by
  rintro rfl
  obtain ⟨item, member, there⟩ := (Text.mem_join there).resolve_left (by decide)
  obtain ⟨p, _, rfl⟩ := List.mem_map.1 member
  have name : '{' ∉ p.name := fun there =>
    absurd (isNameChar_of_isIdentifier p.identifier there) (by decide)
  unfold TypeParam.text at there
  split at there
  · exact name there
  · have there := (List.mem_append.1 there).resolve_left (by simpa using name)
    obtain ⟨item, member, there⟩ := (Text.mem_join there).resolve_left (by decide)
    obtain ⟨r, _, rfl⟩ := List.mem_map.1 member
    exact (r.mem_text there).1 rfl

/-! ## Reading parameters -/

/-- The parameters as the pattern of a header reads them. -/
def paramsPattern : Pattern := .optional (.blanks ++ .char '<' ++ .few (· != '{') ++ .char '>')

theorem gives_params {words : List Text} (params : List TypeParam) {z : Text} {m : Match}
    (follows : Follows words z) (h : Gives atExtends z (some m)) :
    Gives (paramsPattern.firstThen atExtends) (paramsText params ++ z)
      (some ((paramsText params).map .char ++ m)) := by
  cases params with
  | nil =>
    refine Gives.skip ?_ h
    simp only [Pattern.firstThen_append]
    exact gives_blanks_char_none (by decide) follows.head?_trimStart
  | cons p params =>
    refine Gives.optional ?_
    simp only [Pattern.firstThen_append]
    have closing :
        Gives ((Pattern.char '>').firstThen atExtends) ('>' :: z) (some (.char '>' :: m)) :=
      Gives.one (by decide) h
    have list : Gives ((Pattern.few (· != '{')).firstThen ((Pattern.char '>').firstThen atExtends))
        (Text.join ", ".toList ((p :: params).map TypeParam.text) ++ '>' :: z)
        (some ((Text.join ", ".toList ((p :: params).map TypeParam.text)).map .char ++
          .char '>' :: m)) := by
      refine Gives.few ?_ ?_ closing
      · intro c there
        simpa using ne_brace_of_mem_params there
      · intro a v split left
        obtain ⟨c, v, rfl⟩ := List.exists_cons_of_ne_nil left
        by_cases bracket : c = '>'
        · subst bracket
          exact Gives.one (o := none) (by decide) (guarded_params _ _ a v split).atExtends
        · exact Pattern.gives_one_none (by simpa using bracket)
    have whole := gives_blanks_char (by decide : isBlank '<' = false) list
    simpa [paramsText] using whole

theorem head?_paramsText {words : List Text} (params : List TypeParam) {z : Text}
    (follows : Follows words z) : (paramsText params ++ z).head?.any Java.isNameChar = false := by
  cases params with
  | nil =>
    obtain ⟨more, rfl⟩ := follows.blank
    rfl
  | cons p params => rfl

end TypeHeader

end CodeGauge
