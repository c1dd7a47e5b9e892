import CodeGauge.Proofs.Pattern.Language
import CodeGauge.Proofs.Source.Headers
import CodeGauge.Source.Member

/-!
# What follows the type of a field

Behind the type of a field and its arguments there may be brackets, and then come white space, the
name, perhaps more brackets, perhaps a value, and a semicolon at the end. `Declares` says that a
text is of this form. These are exactly the texts at which the pattern of a field can go on behind a
type (`gives_declares`, `gives_not_declares`).
-/

namespace CodeGauge

namespace Member

open Pattern (Gives)
open TypeHeader (marked)

/-! ## The parts and their languages -/

/-- A pair of brackets behind a name. -/
def nameBracket : Pattern := .char '[' ++ .blanks ++ .char ']'

/-- A pair of brackets behind a type. -/
def typeBracket : Pattern := .blanks ++ .char '[' ++ .blanks ++ .char ']'

/-- The value of a field, if it has one. -/
def fieldValue : Pattern := .optional (.char '=' ++ .onLine)

/-- What follows the name of a field. -/
def fieldEnd : Pattern :=
  .blanks ++ .star nameBracket ++ .blanks ++ fieldValue ++ .char ';' ++ .blanks

/-- Whether a text is what may follow the type of a field, when that is a declaration of this
name. -/
def Declares (t name : Text) : Prop :=
  ∃ dims ∈ arrayBrackets.language, ∃ gap ∈ Pattern.blanks1.language, ∃ rest ∈ fieldEnd.language,
    name ∈ Java.name.language ∧ t = dims ++ (gap ++ (name ++ rest))

section Languages

variable {u : Text}

theorem mem_nameBracket :
    u ∈ nameBracket.language ↔ ∃ inside : Text, (∀ c ∈ inside, isBlank c = true) ∧
      u = '[' :: (inside ++ [']']) := by
  simp only [nameBracket, Pattern.mem_language_append, Pattern.mem_language_char, Pattern.blanks,
    Pattern.mem_language_many]
  constructor
  · rintro ⟨_, ⟨_, rfl, inside, blank, rfl⟩, _, rfl, rfl⟩
    exact ⟨inside, blank, by simp⟩
  · rintro ⟨inside, blank, rfl⟩
    exact ⟨'[' :: inside, ⟨['['], rfl, inside, blank, rfl⟩, [']'], rfl, by simp⟩

theorem mem_typeBracket :
    u ∈ typeBracket.language ↔ ∃ before : Text, (∀ c ∈ before, isBlank c = true) ∧
      ∃ pair ∈ nameBracket.language, u = before ++ pair := by
  simp only [typeBracket, nameBracket, Pattern.mem_language_append, Pattern.blanks,
    Pattern.mem_language_many]
  constructor
  · rintro ⟨_, ⟨_, ⟨before, blank, opening, isOpening, rfl⟩, inside, blank', rfl⟩, closing,
      isClosing, rfl⟩
    exact ⟨before, blank, _,
      ⟨_, ⟨opening, isOpening, inside, blank', rfl⟩, closing, isClosing, rfl⟩, by simp⟩
  · rintro ⟨before, blank, _,
      ⟨_, ⟨opening, isOpening, inside, blank', rfl⟩, closing, isClosing, rfl⟩, rfl⟩
    exact ⟨_, ⟨_, ⟨before, blank, opening, isOpening, rfl⟩, inside, blank', rfl⟩,
      closing, isClosing, by simp⟩

theorem mem_fieldEnd :
    u ∈ fieldEnd.language ↔ ∃ space : Text, (∀ c ∈ space, isBlank c = true) ∧
      ∃ pairs : List Text, (∀ pair ∈ pairs, pair ∈ nameBracket.language) ∧
      ∃ space' : Text, (∀ c ∈ space', isBlank c = true) ∧ ∃ value ∈ fieldValue.language,
      ∃ last : Text, (∀ c ∈ last, isBlank c = true) ∧
        u = space ++ (pairs.flatten ++ (space' ++ (value ++ ';' :: last))) := by
  simp only [fieldEnd, Pattern.mem_language_append, Pattern.mem_language_char,
    Pattern.mem_language_star, Pattern.blanks, Pattern.mem_language_many]
  constructor
  · rintro ⟨_, ⟨_, ⟨_, ⟨_, ⟨space, blank, _, ⟨pairs, rfl, all⟩, rfl⟩, space', blank', rfl⟩,
      value, valued, rfl⟩, _, rfl, rfl⟩, last, blank'', rfl⟩
    exact ⟨space, blank, pairs, all, space', blank', value, valued, last, blank'', by simp⟩
  · rintro ⟨space, blank, pairs, all, space', blank', value, valued, last, blank'', rfl⟩
    exact ⟨_, ⟨_, ⟨_, ⟨_, ⟨space, blank, _, ⟨pairs, rfl, all⟩, rfl⟩, space', blank', rfl⟩,
      value, valued, rfl⟩, _, rfl, rfl⟩, last, blank'', by simp⟩

theorem mem_fieldValue :
    u ∈ fieldValue.language ↔ u = [] ∨ ∃ v : Text, '\n' ∉ v ∧ u = '=' :: v := by
  simp only [fieldValue, Pattern.mem_language_optional, Pattern.mem_language_append,
    Pattern.mem_language_char, Pattern.onLine, Pattern.mem_language_many]
  constructor
  · rintro (⟨_, rfl, v, oneLine, rfl⟩ | none)
    · exact .inr ⟨v, fun there => by simpa using oneLine _ there, rfl⟩
    · exact .inl none
  · rintro (none | ⟨v, oneLine, rfl⟩)
    · exact .inr none
    · refine .inl ⟨['='], rfl, v, fun c there => ?_, rfl⟩
      have : c ≠ '\n' := by
        rintro rfl
        exact oneLine there
      simpa using this

theorem mem_name :
    u ∈ Java.name.language ↔ ∃ c rest, Java.isNameStart c = true ∧
      (∀ d ∈ rest, Java.isNameChar d = true) ∧ u = c :: rest := by
  simp only [Java.name, Pattern.mem_language_append, Pattern.mem_language_one,
    Pattern.mem_language_many]
  constructor
  · rintro ⟨_, ⟨c, start, rfl⟩, rest, others, rfl⟩
    exact ⟨c, rest, start, others, rfl⟩
  · rintro ⟨c, rest, start, others, rfl⟩
    exact ⟨[c], ⟨c, start, rfl⟩, rest, others, rfl⟩

theorem mem_name_of_isIdentifier (h : Java.isIdentifier u = true) : u ∈ Java.name.language := by
  cases u with
  | nil => simp [Java.isIdentifier] at h
  | cons c rest =>
    refine mem_name.2 ⟨c, rest, ?_, fun d there =>
      isNameChar_of_isIdentifier h (by simp [there]), rfl⟩
    rw [Java.isIdentifier, Bool.and_eq_true] at h
    exact h.1

theorem head?_of_mem_nameBracket (h : u ∈ nameBracket.language) : u.head? = some '[' := by
  obtain ⟨inside, -, rfl⟩ := mem_nameBracket.1 h
  rfl

theorem nameBracket_moves : [] ∉ nameBracket.language := fun h => by
  simpa using head?_of_mem_nameBracket h

theorem typeBracket_moves : [] ∉ typeBracket.language := by
  intro h
  obtain ⟨before, -, pair, brackets, same⟩ := mem_typeBracket.1 h
  obtain ⟨-, rfl⟩ := List.nil_eq_append_iff.1 same
  exact nameBracket_moves brackets

theorem not_nameBracket_of_head {t : Text} (other : t.head? ≠ some '[') {v : Text}
    (split : t = u ++ v) :
    u ∉ nameBracket.language := by
  intro h
  obtain ⟨inside, -, rfl⟩ := mem_nameBracket.1 h
  exact other (by rw [split]; rfl)

/-- Where something other than a bracket comes first, white space apart, no brackets start. -/
theorem not_typeBracket_of_head {t : Text} (other : (Text.trimStart t).head? ≠ some '[') {v : Text}
    (split : t = u ++ v) : u ∉ typeBracket.language := by
  intro h
  obtain ⟨before, blank, pair, brackets, rfl⟩ := mem_typeBracket.1 h
  obtain ⟨inside, -, rfl⟩ := mem_nameBracket.1 brackets
  apply other
  rw [split, List.append_assoc, Text.trimStart, List.dropWhile_append_of_pos blank]
  rfl

end Languages

/-! ## Reading the parts -/

section Reading

variable {k : Spot → Option Match} {t u : Text} {m : Match}

theorem gives_nameBracket (h : u ∈ nameBracket.language) (g : Gives k t (some m)) :
    Gives (nameBracket.firstThen k) (u ++ t) (some (u.map .char ++ m)) := by
  obtain ⟨inside, blank, rfl⟩ := mem_nameBracket.1 h
  simp only [nameBracket, Pattern.firstThen_append]
  have closing := Gives.many blank rfl (g.char ']')
  simpa [Pattern.blanks] using closing.char '['

theorem gives_typeBracket (h : u ∈ typeBracket.language) (g : Gives k t (some m)) :
    Gives (typeBracket.firstThen k) (u ++ t) (some (u.map .char ++ m)) := by
  obtain ⟨before, blank, pair, brackets, rfl⟩ := mem_typeBracket.1 h
  have visible : (pair ++ t).head?.any isBlank = false := by
    rw [List.head?_append, head?_of_mem_nameBracket brackets]
    rfl
  have read := Gives.many blank visible (gives_nameBracket brackets g)
  simpa [typeBracket, nameBracket, Pattern.firstThen_append, Pattern.blanks] using read

theorem gives_anyName (h : u ∈ Java.name.language) (ends : t.head?.any Java.isNameChar = false)
    (g : Gives k t (some m)) :
    Gives ((Pattern.slot .name Java.name).firstThen k) (u ++ t)
      (some (marked (some .name) u ++ m)) := by
  obtain ⟨c, rest, start, others, rfl⟩ := mem_name.1 h
  have read :
      Gives (Java.name.firstThen fun s => (k s).map (.closing .name :: ·)) (c :: (rest ++ t))
      (some (.char c :: (rest.map .char ++ .closing .name :: m))) := by
    rw [Java.name, Pattern.firstThen_append]
    exact Gives.one start (Gives.many others ends (g.map (.closing .name :: ·)))
  simpa [marked] using read.slot

/-- Going on at the end of the line. -/
def atEnd : Spot → Option Match := Pattern.textEnd.firstThen fun _ => some []

theorem gives_atEnd : Gives atEnd [] (some []) := fun _ => rfl

theorem gives_atEnd_none (more : t ≠ []) : Gives atEnd t none := by
  intro before
  obtain ⟨c, t, rfl⟩ := List.exists_cons_of_ne_nil more
  rfl

theorem gives_last (blank : ∀ c ∈ u, isBlank c = true) :
    Gives (Pattern.blanks.firstThen atEnd) u (some (u.map .char)) := by
  have read := Gives.many blank (by simp) gives_atEnd
  simpa [Pattern.blanks] using read

/-- A value is read up to the last semicolon, which nothing but white space follows. -/
theorem gives_value {value last : Text} (h : value ∈ fieldValue.language)
    (blank : ∀ c ∈ last, isBlank c = true) :
    Gives (fieldValue.firstThen ((Pattern.char ';').firstThen (Pattern.blanks.firstThen atEnd)))
      (value ++ ';' :: last) (some ((value ++ ';' :: last).map .char)) := by
  have closing : Gives ((Pattern.char ';').firstThen (Pattern.blanks.firstThen atEnd)) (';' :: last)
      (some (.char ';' :: last.map .char)) := (gives_last blank).char ';'
  unfold fieldValue
  rcases mem_fieldValue.1 h with rfl | ⟨v, oneLine, rfl⟩
  · refine Gives.skip ?_ closing
    rw [Pattern.firstThen_append]
    exact Pattern.gives_one_none rfl
  · refine Gives.optional ?_
    rw [Pattern.firstThen_append]
    have run : ∀ c ∈ v, (c != '\n') = true := fun c there => by
      simpa using fun newline : c = '\n' => oneLine (newline ▸ there)
    have text := Gives.manyLast run ?_ closing
    · simpa [Pattern.onLine] using text.char '='
    · -- No semicolon stands in the white space behind the last one.
      intro a x split some_char
      obtain ⟨c, a, rfl⟩ := List.exists_cons_of_ne_nil some_char
      obtain ⟨-, rest⟩ := List.cons.inj split
      refine Pattern.gives_one_none ?_
      cases x with
      | nil => rfl
      | cons d x =>
        have gap := blank d (by simp [rest])
        have : d ≠ ';' := by
          rintro rfl
          simp [isBlank] at gap
        simpa using this

theorem head?_value {value : Text} (h : value ∈ fieldValue.language) (last : Text) :
    (value ++ ';' :: last).head? = some ';' ∨ (value ++ ';' :: last).head? = some '=' := by
  rcases mem_fieldValue.1 h with rfl | ⟨v, -, rfl⟩
  · exact .inl rfl
  · exact .inr rfl

/-- Brackets with white space before and after them, if there are any. -/
theorem gives_pairs {space space' : Text} {pairs : List Text}
    (blank : ∀ c ∈ space, isBlank c = true) (brackets : ∀ pair ∈ pairs, pair ∈ nameBracket.language)
    (blank' : ∀ c ∈ space', isBlank c = true) (visible : t.head?.any isBlank = false)
    (other : t.head? ≠ some '[') (g : Gives k t (some m)) :
    Gives (Pattern.blanks.firstThen
      ((Pattern.star nameBracket).firstThen (Pattern.blanks.firstThen k)))
      (space ++ (pairs.flatten ++ (space' ++ t)))
      (some ((space ++ (pairs.flatten ++ space')).map .char ++ m)) := by
  have stop {x : Text} {n : Match} (bare : x.head? ≠ some '[')
      (h : Gives (Pattern.blanks.firstThen k) x (some n)) :
      Gives ((Pattern.star nameBracket).firstThen (Pattern.blanks.firstThen k)) x (some n) :=
    Gives.stop nameBracket_moves (fun _ _ split => not_nameBracket_of_head bare split) h
  cases pairs with
  | nil =>
    -- All white space is taken at once.
    have both : ∀ c ∈ space ++ space', isBlank c = true := fun c there =>
      (List.mem_append.1 there).elim (blank c) (blank' c)
    have none_left : Gives (Pattern.blanks.firstThen k) t (some m) :=
      Gives.many (u := []) (by simp) visible g
    have read := Gives.many both visible (stop other none_left)
    simpa [Pattern.blanks] using read
  | cons pair pairs =>
    have first : (pair :: pairs).flatten.head? = some '[' := by
      rw [List.flatten_cons, List.head?_append, head?_of_mem_nameBracket (brackets pair (by simp))]
      rfl
    have bare : (space' ++ t).head? ≠ some '[' := by
      cases space' with
      | nil => exact other
      | cons c space' =>
        have gap := blank' c (by simp)
        rintro same
        obtain rfl : c = '[' := by simpa using same
        simp [isBlank] at gap
    have after := stop bare (Gives.many blank' visible g)
    have inside := Gives.rounds nameBracket_moves
      (fun u there k t m => gives_nameBracket (brackets u there)) after
    have ends : ((pair :: pairs).flatten ++ (space' ++ t)).head?.any isBlank = false := by
      rw [List.head?_append, first]
      rfl
    have read := Gives.many blank ends inside
    simpa [Pattern.blanks] using read

/-- What follows the name is read to the end of the line. -/
theorem gives_fieldEnd (h : u ∈ fieldEnd.language) :
    Gives (fieldEnd.firstThen atEnd) u (some (u.map .char)) := by
  obtain ⟨space, blank, pairs, brackets, space', blank', value, valued, last, blank'', rfl⟩ :=
    mem_fieldEnd.1 h
  have visible : (value ++ ';' :: last).head?.any isBlank = false := by
    rcases head?_value valued last with first | first <;> rw [first] <;> decide
  have other : (value ++ ';' :: last).head? ≠ some '[' := by
    rcases head?_value valued last with first | first <;> rw [first] <;> decide
  have read := gives_pairs blank brackets blank' visible other (gives_value valued blank'')
  simpa [fieldEnd, Pattern.firstThen_append] using read

/-- The name ends where what follows it starts. -/
theorem head?_fieldEnd (h : u ∈ fieldEnd.language) : u.head?.any Java.isNameChar = false := by
  obtain ⟨space, blank, pairs, brackets, space', blank', value, valued, last, -, rfl⟩ :=
    mem_fieldEnd.1 h
  have gap {c : Char} (there : isBlank c = true) : Java.isNameChar c = false := by
    by_contra name
    have dotted : Java.isDottedChar c = true := by
      simp [Java.isDottedChar, Bool.not_eq_false _ ▸ name]
    rw [isBlank_of_isDottedChar dotted] at there
    contradiction
  rcases space with _ | ⟨c, space⟩
  · rcases pairs with _ | ⟨pair, pairs⟩
    · rcases space' with _ | ⟨c, space'⟩
      · show (value ++ ';' :: last).head?.any Java.isNameChar = false
        rcases head?_value valued last with first | first <;> rw [first] <;> decide
      · exact gap (blank' c (by simp))
    · have first := head?_of_mem_nameBracket (brackets pair (by simp))
      rw [List.nil_append, List.flatten_cons, List.append_assoc, List.head?_append, first]
      rfl
  · exact gap (blank c (by simp))

end Reading

/-! ## Going on behind a type -/

/-- Going on at the name of a field. -/
def atName : Spot → Option Match :=
  (Pattern.slot .name Java.name).firstThen (fieldEnd.firstThen atEnd)

/-- Going on behind the arguments of the type of a field. -/
def behindArguments : Spot → Option Match :=
  arrayBrackets.firstThen fun s => (Pattern.blanks1.firstThen atName s).map (.closing .type :: ·)

theorem isBlank_of_isNameStart {c : Char} (start : Java.isNameStart c = true) :
    isBlank c = false := by
  have identifier : Java.isIdentifier [c] = true := by simp [Java.isIdentifier, start]
  have name := isNameChar_of_isIdentifier identifier List.mem_cons_self
  exact isBlank_of_isDottedChar (by simp [Java.isDottedChar, name])

/-- What follows a type starts with white space or a bracket, and its first visible character is a
bracket or starts a name. -/
theorem Declares.first {t name : Text} (h : Declares t name) :
    (∃ c, t.head? = some c ∧ (isBlank c = true ∨ c = '[')) ∧
      ∃ c, (Text.trimStart t).head? = some c ∧ (c = '[' ∨ Java.isNameStart c = true) := by
  obtain ⟨dims, isDims, gap, isGap, rest, -, isName, rfl⟩ := h
  obtain ⟨pairs, rfl, brackets⟩ := Pattern.mem_language_star.1 isDims
  have either {u : Text} {d : Char} (blank : ∀ c ∈ u, isBlank c = true)
      (visible : isBlank d = false)
      (more : Text) : (Text.trimStart (u ++ d :: more)).head? = some d := by
    rw [Text.trimStart, List.dropWhile_append_of_pos blank]
    simp [visible]
  cases pairs with
  | nil =>
    obtain ⟨some_blank, blank⟩ := Pattern.mem_language_many1.1 isGap
    obtain ⟨d, gap, rfl⟩ := List.exists_cons_of_ne_nil some_blank
    obtain ⟨c, more, start, -, rfl⟩ := mem_name.1 isName
    exact ⟨⟨d, rfl, .inl (blank d (by simp))⟩, c,
      either blank (isBlank_of_isNameStart start) _, .inr start⟩
  | cons pair pairs =>
    obtain ⟨before, blank, pair, isPair, rfl⟩ := mem_typeBracket.1 (brackets pair (by simp))
    obtain ⟨inside, -, rfl⟩ := mem_nameBracket.1 isPair
    rw [List.flatten_cons, List.append_assoc, List.append_assoc, List.cons_append]
    refine ⟨?_, '[', either blank (by decide) _, .inl rfl⟩
    cases before with
    | nil => exact ⟨'[', rfl, .inr rfl⟩
    | cons d before => exact ⟨d, rfl, .inl (blank d (by simp))⟩

/-- Where a name is declared, it is read. -/
theorem gives_declares {t name : Text} (h : Declares t name) :
    ∃ dims gap rest : Text, t = dims ++ (gap ++ (name ++ rest)) ∧
      Gives behindArguments t (some (dims.map .char ++ .closing .type ::
        (gap.map .char ++ (marked (some .name) name ++ rest.map .char)))) := by
  obtain ⟨dims, isDims, gap, isGap, rest, isRest, isName, rfl⟩ := h
  obtain ⟨some_blank, blank⟩ := Pattern.mem_language_many1.1 isGap
  obtain ⟨pairs, rfl, brackets⟩ := Pattern.mem_language_star.1 isDims
  obtain ⟨c, more, start, -, same⟩ := mem_name.1 isName
  have visible := isBlank_of_isNameStart start
  have spaced := Gives.many1 some_blank blank (by simpa [same] using visible)
    (gives_anyName isName (head?_fieldEnd isRest) (gives_fieldEnd isRest))
  have noPair : (Text.trimStart (gap ++ (name ++ rest))).head? ≠ some '[' := by
    rw [Text.trimStart, List.dropWhile_append_of_pos blank, same]
    simp only [List.cons_append, List.dropWhile_cons, visible, Bool.false_eq_true, if_false,
      List.head?_cons]
    rintro ⟨rfl⟩
    exact absurd start (by decide)
  have after := Gives.stop typeBracket_moves (fun _ _ split => not_typeBracket_of_head noPair split)
    (spaced.map (.closing .type :: ·))
  have read := Gives.rounds typeBracket_moves
    (fun u there k t m => gives_typeBracket (brackets u there)) after
  exact ⟨pairs.flatten, gap, rest, rfl, read⟩

/-- Where no name is declared, one cannot go on. -/
theorem gives_not_declares {t : Text} (h : ∀ name, ¬ Declares t name) :
    Gives behindArguments t none := by
  refine Pattern.gives_none fun dims x split isDims => ?_
  refine Gives.map (o := none) _ (Pattern.gives_none fun gap y split' isGap => ?_)
  refine Pattern.gives_none fun name z split'' isName => ?_
  refine Pattern.gives_none fun rest last split''' isRest => gives_atEnd_none fun none => ?_
  subst none
  rw [List.append_nil] at split'''
  subst split'''
  exact h name ⟨dims, isDims, gap, isGap, z, isRest, isName, by rw [split, split', split'']⟩

end Member

end CodeGauge
