import CodeGauge.Proofs.Pattern.Free
import CodeGauge.Proofs.Source.FieldLines

/-!
# The method that a line declares

A declaration of a method is written as `MethodLine.text`: modifiers, type parameters, a return
type, the name, the parameters, thrown types and perhaps an opening brace. What stands between angle
brackets can be divided in many ways, so it is not said which way is found first. Some way is found,
since every part is in the language of its pattern (`MethodLine.readable_signature`). However a
match divides the text (`Division`), the name ends at the only opening parenthesis and starts behind
white space, so it is the declared one (`Division.eq_lead`), and what is taken for the return type
is no reserved word (`Division.canNameType_type`).
-/

namespace CodeGauge

namespace Member

open Pattern (Gives Readable Blind)
open TypeHeader (marked)

/-! ## The parts of a signature -/

/-- Type parameters and the white space behind them. -/
def typeParameters : Pattern :=
  .char '<' ++ .few (Pattern.noneOf ['(', ')']) ++ .char '>' ++ .blanks1

/-- A return type and the white space behind it. -/
def returnType : Pattern := .slot .type typeReference ++ .blanks1

/-- The types that a method throws. -/
def throwsClause : Pattern := .word "throws" ++ .blanks1 ++ .few1 isThrowsChar

/-- What follows the name of a method. -/
def methodEnd : Pattern :=
  .blanks ++ .char '(' ++ .many (· != ')') ++ .char ')' ++ .blanks ++
    .optional throwsClause ++ .blanks
    ++ .optional (.char '{' ++ .onLine)

/-- Going on with the name. -/
def atMethodName : Spot → Option Match :=
  (Pattern.slot .name Java.name).firstThen (methodEnd.firstThen atEnd)

/-- Going on with the return type. -/
def atReturnType : Spot → Option Match := (Pattern.optional returnType).firstThen atMethodName

/-- Going on with the type parameters. -/
def atSignature : Spot → Option Match := (Pattern.optional typeParameters).firstThen atReturnType

theorem matchAt_method (s : Spot) :
    methodPattern.matchAt s = if s.before.isEmpty then
      annotations.firstThen ((modifiers methodModifiers).firstThen atSignature) s else none := by
  rw [← Pattern.firstThen_some, ← Pattern.firstThen_textStart]
  simp only [methodPattern, atSignature, typeParameters, atReturnType, returnType,
    atMethodName, methodEnd, throwsClause, atEnd, Pattern.firstThen_append]

theorem blind_atEnd : Blind atEnd := by
  intro t
  cases t with
  | nil => exact ⟨_, gives_atEnd⟩
  | cons c t => exact ⟨_, gives_atEnd_none (by simp)⟩

theorem blind_behindName : Blind (methodEnd.firstThen atEnd) := blind_atEnd.firstThen rfl

theorem blind_atMethodName : Blind atMethodName := blind_behindName.firstThen rfl

theorem blind_atReturnType : Blind atReturnType := blind_atMethodName.firstThen rfl

/-- An opening parenthesis follows the name, white space apart. -/
theorem exists_parenthesis {u : Text} (h : u ∈ methodEnd.language) :
    ∃ gap rest : Text, (∀ c ∈ gap, isBlank c = true) ∧ u = gap ++ '(' :: rest := by
  obtain ⟨_, ⟨_, ⟨_,
      ⟨_, ⟨_, ⟨_, ⟨gap, blank, _, sign, rfl⟩, params, -, rfl⟩, closing, -, rfl⟩, space, -, rfl⟩,
    thrown, -, rfl⟩, space', -, rfl⟩, body, -, rfl⟩ := h
  obtain rfl := Pattern.mem_language_char.1 sign
  exact ⟨gap, params ++ (closing ++ (space ++ (thrown ++ (space' ++ body)))), blank, by simp⟩

/-! ## Runs of characters at the end of a text -/

section Runs

variable {accepts : Char → Bool} {x y u v : Text}

theorem eq_nil_of_run (run : ∀ c ∈ u, accepts c = true)
    (ends : ∀ c ∈ (x ++ u).getLast?, accepts c = false) :
    u = [] := by
  by_contra some_char
  have ending : (x ++ u).getLast? = some (u.getLast some_char) := by
    rw [List.getLast?_append_of_ne_nil _ some_char, List.getLast?_eq_some_getLast some_char]
  have last := ends (u.getLast some_char) ending
  rw [run _ (List.getLast_mem some_char)] at last
  contradiction

/-- There is only one run up to the end of a text, if no character of the class stands before it. -/
theorem eq_of_append_runs (same : x ++ u = y ++ v) (left : ∀ c ∈ x.getLast?, accepts c = false)
    (first : ∀ c ∈ u, accepts c = true) (right : ∀ c ∈ y.getLast?, accepts c = false)
    (second : ∀ c ∈ v, accepts c = true) : x = y ∧ u = v := by
  rcases List.append_eq_append_iff.1 same with ⟨a, rfl, rfl⟩ | ⟨a, rfl, rfl⟩
  · obtain rfl := eq_nil_of_run (fun c there => first c (by simp [there])) right
    simp
  · obtain rfl := eq_nil_of_run (fun c there => second c (by simp [there])) left
    simp

/-- A text is empty or white space stands at its end. -/
def EndsBlank (t : Text) : Prop := ∀ c ∈ t.getLast?, isBlank c = true

theorem EndsBlank.append (hx : EndsBlank x) (hy : EndsBlank y) : EndsBlank (x ++ y) := by
  intro c last
  rw [List.getLast?_append] at last
  rcases Option.or_eq_some_iff.1 last with there | ⟨-, there⟩
  · exact hy c there
  · exact hx c there

/-- Behind white space a run of visible characters can start. -/
theorem EndsBlank.ends (h : EndsBlank x) (visible : ∀ c, accepts c = true → isBlank c = false) :
    ∀ c ∈ x.getLast?, accepts c = false := by
  intro c last
  by_contra fits
  have := visible c (by simpa using fits)
  rw [h c last] at this
  contradiction

/-- The last character of a text is neither white space nor part of a name. -/
def EndsWithSign (t : Text) : Prop :=
  ∃ c, t.getLast? = some c ∧ isBlank c = false ∧ Java.isDottedChar c = false

theorem getLast?_of_forall {P : Char → Prop} (some_char : u ≠ []) (all : ∀ c ∈ u, P c) :
    ∀ c ∈ (x ++ u).getLast?, P c := by
  intro c last
  rw [List.getLast?_append_of_ne_nil _ some_char] at last
  exact all c (List.mem_of_getLast? last)

end Runs

theorem isBlank_of_isNameChar {c : Char} (h : Java.isNameChar c = true) : isBlank c = false :=
  isBlank_of_isDottedChar (by simp [Java.isDottedChar, h])

/-- A name is a run of name characters. -/
theorem forall_isNameChar_of_mem_name {u : Text} (h : u ∈ Java.name.language) :
    u ≠ [] ∧ ∀ c ∈ u, Java.isNameChar c = true := by
  obtain ⟨c, rest, start, others, rfl⟩ := mem_name.1 h
  refine ⟨by simp, fun d there => ?_⟩
  rcases List.mem_cons.1 there with rfl | there
  · have identifier : Java.isIdentifier [d] = true := by simp [Java.isIdentifier, start]
    exact isNameChar_of_isIdentifier identifier (by simp)
  · exact others d there

/-! ## Taking a signature apart -/

/-- A type and the white space behind it, if there is one. -/
def typedText (type : Option (Text × Text)) : Text := type.elim [] fun x => x.1 ++ x.2

/-- A type and the white space behind it as part of a match. -/
def typedMatch (type : Option (Text × Text)) : Match :=
  type.elim [] fun x => marked (some .type) x.1 ++ x.2.map .char

/-- A way to divide a text into what stands before the type, a type with white space behind it, a
name, and what follows. -/
structure Division (t : Text) where
  before : Text
  type : Option (Text × Text)
  name : Text
  gap : Text
  rest : Text
  whole : t = before ++ (typedText type ++ (name ++ (gap ++ '(' :: rest)))
  ended : EndsBlank before
  typed : ∀ x ∈ type, x.1 ∈ typeReference.language ∧ x.2 ≠ [] ∧ ∀ c ∈ x.2, isBlank c = true
  named : name ∈ Java.name.language
  blank : ∀ c ∈ gap, isBlank c = true

namespace Division

variable {t : Text} {s : Spot} {m : Match}

/-- A match that divides a text in this way, with some characters at its end. -/
def found (d : Division t) (tail : Text) : Match :=
  d.before.map .char ++ (typedMatch d.type ++ (marked (some .name) d.name ++ tail.map .char))

theorem part_name (d : Division t) (front tail : Text) :
    Match.part (front.map .char ++ d.found tail) .name = d.name := by
  simp only [found, ← List.append_assoc]
  rw [List.append_assoc]
  exact TypeHeader.part_of_marked _ _ (by simp)

theorem part?_type (d : Division t) (front tail : Text) :
    Match.part? (front.map .char ++ d.found tail) .type = d.type.map Prod.fst := by
  unfold found
  cases d.type with
  | none =>
    refine Match.part?_absent ?_
    simp [typedMatch, TypeHeader.closing_mem_marked]
  | some x =>
    have last :
        Piece.closing .type ∉ x.2.map Piece.char ++
          (marked (some .name) d.name ++ tail.map .char) := by
      simp [TypeHeader.closing_mem_marked]
    have taken := Match.part?_marked (front.map .char ++ d.before.map .char) x.1 last
    simpa [typedMatch, marked] using taken

/-- Before the parenthesis stands a name. -/
theorem exists_of_atMethodName (h : atMethodName s = some m) :
    ∃ name ∈ Java.name.language, ∃ gap rest tail : Text, (∀ c ∈ gap, isBlank c = true) ∧
      s.after = name ++ (gap ++ '(' :: rest) ∧ m = marked (some .name) name ++ tail.map .char := by
  obtain ⟨name, named, e, takes, n, further, rfl⟩ := Pattern.exists_of_slot rfl h
  obtain ⟨u, ends, f, behind, n, closing, rfl⟩ := Pattern.exists_of_plain rfl further
  obtain ⟨v, -, g, -, n, stop, rfl⟩ := Pattern.exists_of_plain rfl closing
  obtain rfl : [] = n := Option.some.inj stop
  obtain ⟨gap, rest, blank, rfl⟩ := exists_parenthesis ends
  refine ⟨name, named, gap, rest ++ f.after, gap ++ '(' :: rest ++ v, blank, ?_, by simp [marked]⟩
  rw [takes.1, behind.1, List.append_assoc, List.cons_append]

/-- Before the name stands a type with white space behind it, or nothing. -/
theorem exists_of_atReturnType (h : atReturnType s = some m) :
    ∃ (d : Division s.after) (tail : Text), d.before = [] ∧ m = d.found tail := by
  rcases Pattern.eq_some_of_optional h with typed | untyped
  · rw [returnType, Pattern.firstThen_append] at typed
    obtain ⟨ref, isType, e, takes, n, further, rfl⟩ := Pattern.exists_of_slot rfl typed
    obtain ⟨space, isSpace, f, behind, n, goesOn, rfl⟩ := Pattern.exists_of_plain rfl further
    obtain ⟨name, named, gap, rest, tail, blank, split, rfl⟩ := exists_of_atMethodName goesOn
    refine ⟨{
      before := []
      type := some (ref, space)
      name := name
      gap := gap
      rest := rest
      whole := by rw [takes.1, behind.1, split]; simp [typedText]
      ended := by simp [EndsBlank]
      typed := by
        rintro _ ⟨rfl⟩
        exact ⟨isType, Pattern.mem_language_many1.1 isSpace⟩
      named := named
      blank := blank }, tail, rfl, by simp [found, typedMatch, marked]⟩
  · obtain ⟨name, named, gap, rest, tail, blank, split, rfl⟩ := exists_of_atMethodName untyped
    exact ⟨{
      before := []
      type := none
      name := name
      gap := gap
      rest := rest
      whole := by rw [split]; simp [typedText]
      ended := by simp [EndsBlank]
      typed := by simp
      named := named
      blank := blank }, tail, rfl, by simp [found, typedMatch]⟩

theorem endsBlank_of_mem_typeParameters {u : Text} (h : u ∈ typeParameters.language) :
    EndsBlank u := by
  obtain ⟨x, -, space, isSpace, rfl⟩ := Pattern.mem_language_append.1 h
  obtain ⟨some_char, blank⟩ := Pattern.mem_language_many1.1 isSpace
  exact getLast?_of_forall some_char blank

/-- Every match of a signature divides its text. -/
theorem exists_of_atSignature (h : atSignature s = some m) :
    ∃ (d : Division s.after) (tail : Text), m = d.found tail := by
  rcases Pattern.eq_some_of_optional h with params | bare
  · obtain ⟨u, isParams, e, takes, n, further, rfl⟩ := Pattern.exists_of_plain rfl params
    obtain ⟨d, tail, first, rfl⟩ := exists_of_atReturnType further
    have whole := d.whole
    rw [first, List.nil_append] at whole
    exact ⟨{ d with
      before := u
      whole := takes.1.trans (congrArg (u ++ ·) whole)
      ended := endsBlank_of_mem_typeParameters isParams }, tail, by simp [found, first]⟩
  · obtain ⟨d, tail, -, same⟩ := exists_of_atReturnType bare
    exact ⟨d, tail, same⟩

end Division

/-- Every match of a line divides what follows the annotations and modifiers. -/
theorem exists_division {line : Text} {m : Match} (h : methodPattern.find? line = some m) :
    ∃ (front t : Text) (d : Division t) (tail : Text), line = front ++ t ∧
      m = front.map .char ++ d.found tail := by
  rw [Pattern.find?_eq] at h
  obtain ⟨s, place, here⟩ := List.exists_of_findSome?_eq_some h
  rw [matchAt_method] at here
  split at here
  case isFalse => contradiction
  case isTrue start =>
    obtain ⟨u, -, e, takes, n, further, rfl⟩ := Pattern.exists_of_plain rfl here
    obtain ⟨v, -, f, behind, n, goesOn, rfl⟩ := Pattern.exists_of_plain (by decide) further
    obtain ⟨d, tail, rfl⟩ := Division.exists_of_atSignature goesOn
    refine ⟨u ++ v, f.after, d, tail, ?_, by simp⟩
    have whole := Pattern.mem_places_iff.1 place
    rw [Spot.whole, List.isEmpty_iff.1 start, takes.1, behind.1] at whole
    rw [← whole, List.append_assoc]
    rfl

/-- Whether a match gives a name depends only on its parts. -/
theorem method?_of_found {line front t tail : Text} (d : Division t)
    (h : methodPattern.find? line = some (front.map .char ++ d.found tail)) :
    method? line = if Java.isKeyword d.name then none
      else if (d.type.map Prod.fst).all Java.canNameType then some d.name else none := by
  rw [method?, h, Option.bind_some, d.part_name, d.part?_type]

/-! ## Method declarations as they are written -/

/-- A return type. What stands between the angle brackets is any text without an opening
parenthesis. A name that stands alone is a primitive type or no reserved word. -/
structure ReturnType where
  name : Text
  arguments : Option Text
  dimensions : Nat
  dotted : name ≠ [] ∧ ∀ c ∈ name, Java.isDottedChar c = true
  inside : ∀ inner ∈ arguments, '(' ∉ inner ∧ '\n' ∉ inner
  usable : arguments = none → dimensions = 0 → Java.canNameType name = true

namespace ReturnType

variable (r : ReturnType)

/-- The arguments and the brackets of a type. -/
def more : Text := argumentsText r.arguments ++ (List.replicate r.dimensions ['[', ']']).flatten

/-- How a type is written. -/
def text : Text := r.name ++ r.more

theorem text_mem_language : r.text ∈ typeReference.language := by
  have name : r.name ∈ (Pattern.many1 Java.isDottedChar).language :=
    Pattern.mem_language_many1.2 r.dotted
  have arguments : argumentsText r.arguments ∈
      (Pattern.optional (.blanks ++ .char '<' ++ .onLine ++ .char '>')).language := by
    cases h : r.arguments with
    | none => exact Pattern.mem_language_optional.2 (.inr rfl)
    | some inner =>
      have run : ∀ c ∈ inner, (c != '\n') = true := fun c there => by
        simpa using fun newline : c = '\n' => (r.inside inner h).2 (newline ▸ there)
      have opening :=
        Pattern.append_mem_language Pattern.nil_mem_blanks (Pattern.char_mem_language '<')
      have inside := Pattern.append_mem_language opening (Pattern.mem_language_many.2 run)
      have whole := Pattern.append_mem_language inside (Pattern.char_mem_language '>')
      exact Pattern.mem_language_optional.2 (.inl whole)
  have whole := Pattern.append_mem_language (Pattern.append_mem_language name arguments)
    (brackets_mem_language r.dimensions)
  rwa [List.append_assoc] at whole

theorem parenthesis_not_mem_text : '(' ∉ r.text := by
  intro there
  rcases List.mem_append.1 there with there | there
  · exact absurd (r.dotted.2 _ there) (by decide)
  rcases List.mem_append.1 there with there | there
  · cases h : r.arguments with
    | none => simp [h, argumentsText] at there
    | some inner => exact (r.inside inner h).1 (by simpa [h, argumentsText] using there)
  · obtain ⟨pair, listed, there⟩ := List.mem_flatten.1 there
    rw [List.eq_of_mem_replicate listed] at there
    simp at there

/-- Behind the name a bracket opens, if there is more. -/
theorem head?_more (rest : Text) (h : r.more ≠ []) :
    (r.more ++ rest).head? = some '<' ∨ (r.more ++ rest).head? = some '[' := by
  unfold more at h ⊢
  cases arguments : r.arguments with
  | some inner => exact .inl rfl
  | none =>
    cases size : r.dimensions with
    | zero => simp [arguments, size, argumentsText] at h
    | succ n => exact .inr (by simp [argumentsText, List.replicate_succ])

/-- A type ends with a bracket, if there is more than the name. -/
theorem endsWithSign_text (h : r.more ≠ []) : EndsWithSign r.text := by
  rw [EndsWithSign, text, List.getLast?_append_of_ne_nil _ h]
  unfold more at h ⊢
  cases size : r.dimensions with
  | zero =>
    cases arguments : r.arguments with
    | none => simp [size, arguments, argumentsText] at h
    | some inner => exact ⟨'>', by simp [argumentsText, List.getLast?_cons], by decide, by decide⟩
  | succ n =>
    exact ⟨']', by simp [List.replicate_succ', List.getLast?_append], by decide, by decide⟩

theorem canNameType_of_more (h : r.more = []) : Java.canNameType r.name = true := by
  obtain ⟨arguments, brackets⟩ := List.append_eq_nil_iff.1 h
  refine r.usable ?_ ?_
  · cases same : r.arguments with
    | none => rfl
    | some inner => simp [same, argumentsText] at arguments
  · cases size : r.dimensions with
    | zero => rfl
    | succ n => simp [size, List.replicate_succ] at brackets

/-- The name ends before the space or a bracket, and before the space it is a type that can be
used. -/
theorem behind_name (rest : Text) :
    (r.more ++ ' ' :: rest).head?.any Java.isDottedChar = false ∧
      ((r.more ++ ' ' :: rest).head?.any isBlank = true → Java.canNameType r.name = true) := by
  by_cases more : r.more = []
  · rw [more]
    exact ⟨rfl, fun _ => r.canNameType_of_more more⟩
  · rcases r.head?_more (' ' :: rest) more with first | first <;> rw [first] <;>
      exact ⟨rfl, fun blank => absurd blank Bool.false_ne_true⟩

end ReturnType

/-- How type parameters are written. -/
def typeParametersText (params : Option Text) : Text :=
  params.elim [] fun inner => '<' :: (inner ++ ['>', ' '])

/-- How a return type is written. -/
def returnText (type : Option ReturnType) : Text := type.elim [] fun r => r.text ++ [' ']

/-- How thrown types are written. -/
def throwsText : List Text → Text
  | [] => []
  | thrown => ' ' :: ("throws".toList ++ ' ' :: Text.join [',', ' '] thrown)

/-- How the start of a body is written. -/
def openingText (opens : Bool) : Text := if opens then [' ', '{'] else []

/-- A declaration of a method on a line, or of a constructor if there is no return type. The type
parameters and the parameters are any texts without parentheses. -/
structure MethodLine where
  modifiers : List Text
  typeParams : Option Text
  returns : Option ReturnType
  name : Text
  params : Text
  thrown : List Text
  opens : Bool
  known : ∀ w ∈ modifiers, w ∈ methodModifiers.map String.toList
  enclosed : ∀ t ∈ typeParams.toList ++ [params], '(' ∉ t ∧ ')' ∉ t
  identifier : Java.isIdentifier name = true
  unreserved : Java.isKeyword name = false
  throwable : ∀ t ∈ thrown, t ≠ [] ∧ ∀ c ∈ t, isThrowsChar c = true

namespace MethodLine

variable (l : MethodLine)

/-- What stands between the modifiers and the name. -/
def lead : Text := typeParametersText l.typeParams ++ returnText l.returns

/-- What stands behind the opening parenthesis. -/
def tail : Text := l.params ++ ')' :: (throwsText l.thrown ++ openingText l.opens)

/-- What stands behind the modifiers. -/
def signature : Text := l.lead ++ (l.name ++ '(' :: l.tail)

/-- How a declaration is written. -/
def text : Text := modifiersText l.modifiers ++ l.signature

theorem name_run : l.name ≠ [] ∧ ∀ c ∈ l.name, Java.isNameChar c = true :=
  forall_isNameChar_of_mem_name (mem_name_of_isIdentifier l.identifier)

/-! ### Some way is found -/

theorem space_mem_blanks1 : [' '] ∈ Pattern.blanks1.language :=
  Pattern.mem_language_many1.2 (by simp [isBlank])

theorem typeParametersText_mem_language :
    typeParametersText l.typeParams ∈ (Pattern.optional typeParameters).language := by
  cases h : l.typeParams with
  | none => exact Pattern.mem_language_optional.2 (.inr rfl)
  | some inner =>
    obtain ⟨opening, closing⟩ := l.enclosed inner (by simp [h])
    have run : ∀ c ∈ inner, Pattern.noneOf ['(', ')'] c = true := fun c there => by
      have first : c ≠ '(' := fun same => opening (same ▸ there)
      have second : c ≠ ')' := fun same => closing (same ▸ there)
      simp [Pattern.noneOf, first, second]
    have chars : inner ∈ (Pattern.few (Pattern.noneOf ['(', ')'])).language := run
    have inside := Pattern.append_mem_language (Pattern.char_mem_language '<') chars
    have closed := Pattern.append_mem_language inside (Pattern.char_mem_language '>')
    have whole := Pattern.append_mem_language closed space_mem_blanks1
    exact Pattern.mem_language_optional.2
      (.inl (by simpa [typeParametersText, typeParameters] using whole))

theorem returnText_mem_language :
    returnText l.returns ∈ (Pattern.optional returnType).language := by
  cases l.returns with
  | none => exact Pattern.mem_language_optional.2 (.inr rfl)
  | some r => exact Pattern.mem_language_optional.2 (.inl
      (Pattern.append_mem_language r.text_mem_language space_mem_blanks1))

/-- Thrown types can be read as one list. -/
theorem forall_isThrowsChar_join : ∀ c ∈ Text.join [',', ' '] l.thrown, isThrowsChar c = true := by
  intro c there
  rcases Text.mem_join there with separator | ⟨t, listed, there⟩
  · have : c = ',' ∨ c = ' ' := by simpa using separator
    rcases this with rfl | rfl <;> decide
  · exact (l.throwable t listed).2 c there

theorem exists_throwsClause :
    ∃ gap ∈ Pattern.blanks.language, ∃ clause ∈ (Pattern.optional throwsClause).language,
      throwsText l.thrown = gap ++ clause := by
  have chars := l.forall_isThrowsChar_join
  have each := l.throwable
  cases thrown : l.thrown with
  | nil => exact ⟨[], Pattern.nil_mem_blanks, [], Pattern.mem_language_optional.2 (.inr rfl), rfl⟩
  | cons first others =>
    rw [thrown] at chars each
    have some_char : Text.join [',', ' '] (first :: others) ≠ [] := by
      obtain ⟨c, rest, rfl⟩ := List.exists_cons_of_ne_nil (each first (by simp)).1
      cases others <;> simp [Text.join, List.intercalate]
    have list : Text.join [',', ' '] (first :: others) ∈ (Pattern.few1 isThrowsChar).language :=
      Pattern.mem_language_many1.2 ⟨some_char, chars⟩
    have keyword : "throws".toList ∈ (Pattern.word "throws").language := rfl
    have clause :=
      Pattern.append_mem_language (Pattern.append_mem_language keyword space_mem_blanks1) list
    exact ⟨[' '], fun c => by simp +contextual [isBlank], _,
      Pattern.mem_language_optional.2 (.inl clause), by simp [throwsText]⟩

theorem exists_opening :
    ∃ gap ∈ Pattern.blanks.language, ∃ brace ∈ (Pattern.optional (.char '{' ++ .onLine)).language,
      openingText l.opens = gap ++ brace := by
  cases l.opens with
  | false => exact ⟨[], Pattern.nil_mem_blanks, [], Pattern.mem_language_optional.2 (.inr rfl), rfl⟩
  | true =>
    have nothing : [] ∈ Pattern.onLine.language := fun _ there => absurd there List.not_mem_nil
    have brace := Pattern.append_mem_language (Pattern.char_mem_language '{') nothing
    exact ⟨[' '], fun c => by simp +contextual [isBlank], _,
      Pattern.mem_language_optional.2 (.inl brace), rfl⟩

theorem tail_mem_language : '(' :: l.tail ∈ methodEnd.language := by
  obtain ⟨gap, blank, clause, throwing, first⟩ := l.exists_throwsClause
  obtain ⟨space, blank', brace, opening, second⟩ := l.exists_opening
  have params : l.params ∈ (Pattern.many (· != ')')).language := fun c there => by
    simpa using fun same : c = ')' => (l.enclosed l.params (by simp)).2 (same ▸ there)
  have start := Pattern.append_mem_language Pattern.nil_mem_blanks (Pattern.char_mem_language '(')
  have closed := Pattern.append_mem_language (Pattern.append_mem_language start params)
    (Pattern.char_mem_language ')')
  have thrown := Pattern.append_mem_language (Pattern.append_mem_language closed blank) throwing
  have whole := Pattern.append_mem_language (Pattern.append_mem_language thrown blank') opening
  simpa [tail, first, second, methodEnd] using whole

/-- A signature can be read, part by part. -/
theorem readable_signature : Readable atSignature l.signature := by
  have stop : Readable atEnd [] := ⟨_, gives_atEnd⟩
  have behind := stop.firstThen rfl blind_atEnd l.tail_mem_language
  rw [List.append_nil] at behind
  have named := behind.firstThen (p := .slot .name Java.name) rfl blind_behindName
    (mem_name_of_isIdentifier l.identifier)
  have typed := named.firstThen rfl blind_atMethodName l.returnText_mem_language
  have whole := typed.firstThen rfl blind_atReturnType l.typeParametersText_mem_language
  rwa [← List.append_assoc] at whole

/-! ### Behind the modifiers -/

/-- A signature starts with a name that is no modifier, or with a bracket. -/
theorem exists_start :
    ∃ word rest : Text, l.signature = word ++ rest ∧ (∀ c ∈ word, Java.isDottedChar c = true) ∧
      rest.head?.any Java.isDottedChar = false ∧ (word = [] → rest.head? = some '<') ∧
      (rest.head?.any isBlank = true → Java.canNameType word = true) := by
  unfold signature lead
  cases l.typeParams with
  | some inner =>
    exact ⟨[], _, rfl, by simp, rfl, fun _ => rfl, fun blank => absurd blank Bool.false_ne_true⟩
  | none =>
    cases l.returns with
    | none =>
      refine ⟨l.name, '(' :: l.tail, rfl, fun c there => ?_, rfl, fun nothing => ?_,
        fun blank => ?_⟩
      · simp [Java.isDottedChar, l.name_run.2 c there]
      · exact absurd nothing l.name_run.1
      · exact absurd blank Bool.false_ne_true
    | some r =>
      obtain ⟨ends, usable⟩ := r.behind_name (l.name ++ '(' :: l.tail)
      refine ⟨r.name, r.more ++ ' ' :: (l.name ++ '(' :: l.tail), ?_, r.dotted.2, ends,
        fun nothing => ?_, usable⟩
      · simp [typeParametersText, returnText, ReturnType.text]
      · exact absurd nothing r.dotted.1

theorem isModifierList_methodModifiers : IsModifierList methodModifiers :=
  ⟨by decide +kernel, by decide +kernel, by decide +kernel, by decide +kernel⟩

/-- A line that is written as a method declaration is matched from its start. -/
theorem find?_text {m : Match} (h : Gives atSignature l.signature (some m)) :
    methodPattern.find? l.text = some ((modifiersText l.modifiers).map .char ++ m) := by
  obtain ⟨word, rest, split, dotted, ends, opens, usable⟩ := l.exists_start
  obtain ⟨modified, bare⟩ :=
    gives_known_modifiers isModifierList_methodModifiers l.known dotted opens ends
    usable (split ▸ h)
  rw [← split] at modified bare
  refine Pattern.find?_of_matchAt ?_
  rw [matchAt_method]
  exact gives_no_annotations bare modified []

/-! ### Every way finds the name -/

theorem parenthesis_not_mem_front : '(' ∉ l.lead ++ l.name := by
  have params : '(' ∉ typeParametersText l.typeParams := by
    cases h : l.typeParams with
    | none => simp [typeParametersText]
    | some inner => simpa [typeParametersText] using (l.enclosed inner (by simp [h])).1
  have type : '(' ∉ returnText l.returns := by
    cases l.returns with
    | none => simp [returnText]
    | some r => simpa [returnText] using r.parenthesis_not_mem_text
  have name : '(' ∉ l.name := fun there => absurd (l.name_run.2 _ there) (by decide)
  simp [lead, params, type, name]

theorem parenthesis_not_mem_tail : '(' ∉ l.tail := by
  have params : '(' ∉ l.params := (l.enclosed l.params (by simp)).1
  have thrown : '(' ∉ throwsText l.thrown := by
    have chars := l.forall_isThrowsChar_join
    cases thrown : l.thrown with
    | nil => simp [throwsText]
    | cons first others =>
      rw [thrown] at chars
      have list : '(' ∉ Text.join [',', ' '] (first :: others) := fun there =>
        absurd (chars _ there) (by decide)
      simpa [throwsText] using list
  have opening : '(' ∉ openingText l.opens := by cases l.opens <;> decide
  simp [tail, params, thrown, opening]

theorem endsBlank_typeParametersText : EndsBlank (typeParametersText l.typeParams) := by
  cases l.typeParams with
  | none => simp [EndsBlank, typeParametersText]
  | some inner => simp [EndsBlank, typeParametersText, isBlank, List.getLast?_cons]

theorem endsBlank_lead : EndsBlank l.lead := by
  refine l.endsBlank_typeParametersText.append ?_
  cases l.returns with
  | none => simp [EndsBlank, returnText]
  | some r => simp [EndsBlank, returnText, isBlank]

/-- What stands last before the name is a type name that can be used, or ends with a bracket. -/
theorem lead_cases (some_char : l.lead ≠ []) :
    ∃ front word : Text, l.lead = front ++ word ++ [' '] ∧ EndsBlank front ∧
      ((word ≠ [] ∧ (∀ c ∈ word, Java.isDottedChar c = true) ∧ Java.canNameType word = true) ∨
        EndsWithSign word) := by
  cases returns : l.returns with
  | some r =>
    refine ⟨typeParametersText l.typeParams, r.text, by simp [lead, returns, returnText],
      l.endsBlank_typeParametersText, ?_⟩
    by_cases more : r.more = []
    · refine .inl ?_
      rw [ReturnType.text, more, List.append_nil]
      exact ⟨r.dotted.1, r.dotted.2, r.canNameType_of_more more⟩
    · exact .inr (r.endsWithSign_text more)
  | none =>
    cases params : l.typeParams with
    | none => simp [lead, returns, params, returnText, typeParametersText] at some_char
    | some inner =>
      refine ⟨[], '<' :: (inner ++ ['>']), ?_,
        by simp [EndsBlank], .inr ⟨'>', ?_, by decide, by decide⟩⟩
      · simp [lead, returns, params, returnText, typeParametersText]
      · simp [List.getLast?_cons]

end MethodLine

namespace Division

variable {l : MethodLine} (d : Division l.signature)

/-- The name that is found is the declared one. -/
theorem eq_lead : d.before ++ typedText d.type = l.lead ∧ d.name = l.name := by
  obtain ⟨some_char, letters⟩ := forall_isNameChar_of_mem_name d.named
  have split : d.before ++ typedText d.type ++ d.name ++ d.gap ++ '(' :: d.rest =
      l.lead ++ l.name ++ '(' :: l.tail := by
    have whole : l.lead ++ (l.name ++ '(' :: l.tail) = _ := d.whole
    simp [whole]
  -- There is only one opening parenthesis.
  obtain ⟨front, -, -⟩ := (List.append_cons_inj_of_notMem l.parenthesis_not_mem_front
    l.parenthesis_not_mem_tail).1 split.symm
  -- No white space stands before it, and the name characters before it are the name.
  have noGap : d.before ++ typedText d.type ++ d.name = l.lead ++ l.name ∧ d.gap = [] := by
    refine eq_of_append_runs (front.symm.trans (List.append_nil _).symm) ?_ d.blank ?_ (by simp)
    · exact getLast?_of_forall some_char fun c there => isBlank_of_isNameChar (letters c there)
    · exact getLast?_of_forall l.name_run.1 fun c there =>
        isBlank_of_isNameChar (l.name_run.2 c there)
  have ended : EndsBlank (d.before ++ typedText d.type) := by
    refine d.ended.append ?_
    have typed := d.typed
    cases type : d.type with
    | none => simp [EndsBlank, typedText]
    | some x =>
      obtain ⟨-, some_char, blank⟩ := typed x type
      exact getLast?_of_forall some_char blank
  exact eq_of_append_runs noGap.1 (ended.ends fun _ => isBlank_of_isNameChar) letters
    (l.endsBlank_lead.ends fun _ => isBlank_of_isNameChar) l.name_run.2

theorem ne_nil_of_mem_typeReference {u : Text} (h : u ∈ typeReference.language) : u ≠ [] := by
  obtain ⟨_, ⟨name, isName, _, -, rfl⟩, _, -, rfl⟩ := h
  have := (Pattern.mem_language_many1.1 isName).1
  simp [this]

/-- What is found as the return type is no reserved word, primitive types apart. -/
theorem canNameType_type {x : Text × Text} (h : d.type = some x) : Java.canNameType x.1 = true := by
  obtain ⟨isType, -, blank⟩ := d.typed x h
  have some_char := ne_nil_of_mem_typeReference isType
  by_cases dotted : ∀ c ∈ x.1, Java.isDottedChar c = true
  case neg =>
    obtain ⟨c, there, other⟩ : ∃ c ∈ x.1, Java.isDottedChar c = false := by simpa using dotted
    simp [Java.canNameType, isKeyword_of_not_dotted there other]
  case pos =>
    have same := d.eq_lead.1
    rw [h] at same
    have whole : d.before ++ x.1 ++ x.2 = l.lead := by simpa [typedText] using same
    obtain ⟨front, word, split, ended, last⟩ := l.lead_cases (by simp [← whole, some_char])
    have visible : ∀ c ∈ (front ++ word).getLast?, isBlank c = false := by
      rcases last with ⟨some_letter, letters, -⟩ | ⟨sign, closing, visible, -⟩
      · exact getLast?_of_forall some_letter fun c there =>
          isBlank_of_isDottedChar (letters c there)
      · intro c there
        rw [List.getLast?_append, closing] at there
        obtain rfl := Option.some.inj there
        exact visible
    obtain ⟨both, -⟩ := eq_of_append_runs (whole.trans split)
      (getLast?_of_forall some_char fun c there => isBlank_of_isDottedChar (dotted c there))
        blank visible
      (by simp [isBlank])
    rcases last with ⟨-, letters, usable⟩ | ⟨sign, closing, -, other⟩
    · obtain ⟨-, rfl⟩ :=
        eq_of_append_runs both (d.ended.ends fun _ => isBlank_of_isDottedChar) dotted
        (ended.ends fun _ => isBlank_of_isDottedChar) letters
      exact usable
    · -- A plain name does not end with a bracket.
      have letter := getLast?_of_forall (x := d.before) some_char dotted
      rw [both, List.getLast?_append, closing] at letter
      have := letter sign rfl
      rw [other] at this
      contradiction

end Division

theorem MethodLine.method?_text (l : MethodLine) : method? l.text = some l.name := by
  obtain ⟨m, read⟩ := l.readable_signature
  obtain ⟨d, tail, rfl⟩ := Division.exists_of_atSignature (read [])
  have usable : (d.type.map Prod.fst).all Java.canNameType = true := by
    cases type : d.type with
    | none => rfl
    | some x => exact d.canNameType_type type
  rw [method?_of_found d (l.find?_text read), d.eq_lead.2, l.unreserved, usable]
  rfl

/-- The declared name of a method is read back from its line. Whatever is read from any line is no
reserved word, and stands in the line before an opening parenthesis, white space apart. -/
theorem method_name_is_read :
    (∀ l : MethodLine, method? l.text = some l.name) ∧
      ∀ line name : Text, method? line = some name →
        Java.isKeyword name = false ∧ ∃ before gap after : Text,
          (∀ c ∈ gap, isBlank c = true) ∧ line = before ++ (name ++ (gap ++ '(' :: after)) := by
  refine ⟨MethodLine.method?_text, fun line name read => ?_⟩
  obtain ⟨m, found, -⟩ := Option.bind_eq_some_iff.1 read
  obtain ⟨front, t, d, tail, rfl, rfl⟩ := exists_division found
  rw [method?_of_found d found] at read
  split at read
  case isTrue => contradiction
  case isFalse unreserved =>
    split at read
    case isFalse => contradiction
    case isTrue =>
      obtain rfl := Option.some.inj read
      refine ⟨by simpa using unreserved, front ++ (d.before ++ typedText d.type), d.gap, d.rest,
        d.blank, ?_⟩
      have whole := d.whole
      simp [← whole]

/-- Brackets in the type parameters, in the return type and in the parameters do not hide the
name. -/
theorem generic_method_name_is_read :
    ∃ l : MethodLine,
      l.text = "static <K, V extends A<K>> java.util.Map<K, List<V>>[] merge(B<V> b) throws E, F \x7b".toList ∧
      method? l.text = some "merge".toList ∧ Java.isKeyword "merge".toList = false ∧
      ∃ before gap after : Text, (∀ c ∈ gap, isBlank c = true) ∧
        l.text = before ++ ("merge".toList ++ (gap ++ '(' :: after)) := by
  let l : MethodLine := {
    modifiers := ["static".toList]
    typeParams := some "K, V extends A<K>".toList
    returns := some {
      name := "java.util.Map".toList
      arguments := some "K, List<V>".toList
      dimensions := 1
      dotted := ⟨by decide, List.all_eq_true.1 (by decide)⟩
      inside := by simp
      usable := by simp }
    name := "merge".toList
    params := "B<V> b".toList
    thrown := ["E".toList, "F".toList]
    opens := true
    known := by decide
    enclosed := by simp
    identifier := by decide
    unreserved := by decide
    throwable := by
      have chars :
          (["E".toList, "F".toList].all fun t => !t.isEmpty && t.all isThrowsChar) = true := by
        decide
      simpa using chars }
  have read : method? l.text = some "merge".toList := method_name_is_read.1 l
  exact ⟨l, by decide +kernel, read, method_name_is_read.2 l.text "merge".toList read⟩

end Member

end CodeGauge
