import CodeGauge.Proofs.Source.Declarators

/-!
# The field that a line declares

A field declaration is written as `FieldLine.text`: modifiers, a type that may have arguments and
brackets, the name, and perhaps a value. Its name is read back if the type has no arguments. If it
has some, they are read up to the last closing bracket of the line behind which a declaration can
end (`gives_arguments`), and that bracket may stand in the value: in `Supplier<Integer> s = () ->
count;` the name that is read is `count`. So the name is read back exactly if the value does not
shadow it (`field_name_is_read_iff`).
-/

namespace CodeGauge

namespace Member

open Pattern (Gives)
open TypeHeader (marked)

/-! ## Reading a field -/

section Reading

variable {k : Spot → Option Match} {t u : Text} {m : Match} {ws : List String} {mods : List Text}

/-- How modifiers are written. -/
def modifiersText (mods : List Text) : Text := (mods.map (· ++ [' '])).flatten

theorem modifiersText_cons (w : Text) (mods : List Text) :
    modifiersText (w :: mods) = w ++ ' ' :: modifiersText mods := by
  simp [modifiersText]

theorem words_modifiersText (mods : List Text) :
    Text.words (modifiersText mods) = mods.flatMap Text.words := by
  induction mods with
  | nil => rfl
  | cons w mods ih =>
    rw [modifiersText_cons, Text.words_append_blank (by decide), ih, List.flatMap_cons]

theorem modifier_moves : [] ∉ (Pattern.anyWord ws ++ Pattern.blanks1).language := by
  intro h
  obtain ⟨w, -, gap, isGap, same⟩ := Pattern.mem_language_append.1 h
  exact (Pattern.mem_language_many1.1 isGap).1 (List.append_eq_nil_iff.1 same).2

/-- Modifiers are read up to where none of them stands. -/
theorem gives_modifiers (apart : ∀ v ∈ ws, ∀ w ∈ ws, v.toList <+: w.toList → v = w)
    (visible : ∀ w ∈ ws, w.toList.head?.any isBlank = false ∧ w.toList ≠ [])
    (known : ∀ w ∈ mods, w ∈ ws.map String.toList) (first : t.head?.any isBlank = false)
    (ends : ∀ u v, t = u ++ v → u ∉ (Pattern.anyWord ws ++ Pattern.blanks1).language)
    (h : Gives k t (some m)) :
    Gives ((modifiers ws).firstThen k) (modifiersText mods ++ t)
      (some ((modifiersText mods).map .char ++ m)) := by
  induction mods with
  | nil => exact Gives.stop modifier_moves ends h
  | cons w mods ih =>
    have further := ih fun v there => known v (by simp [there])
    obtain ⟨w, listed, rfl⟩ := List.mem_map.1 (known w (by simp))
    have next : (modifiersText mods ++ t).head?.any isBlank = false := by
      cases mods with
      | nil => exact first
      | cons v mods =>
        obtain ⟨v, there, rfl⟩ := List.mem_map.1 (known v (by simp))
        obtain ⟨starts, some_char⟩ := visible v there
        rwa [modifiersText_cons, List.append_assoc, List.head?_append_of_ne_nil _ some_char]
    refine Gives.round modifier_moves ?_
    rw [Pattern.firstThen_append, modifiersText_cons]
    have gap := Gives.many1 (u := [' ']) (by simp) (by simp [isBlank]) next further
    simpa [Pattern.blanks1, modifiers] using Pattern.gives_anyWord apart listed gap

/-- A type with its arguments, if there are any. -/
def typeArguments : Pattern := .optional (.blanks ++ .char '<' ++ .onLine ++ .char '>')

theorem typeReference_firstThen (k : Spot → Option Match) :
    typeReference.firstThen k = (Pattern.many1 Java.isDottedChar).firstThen
      (typeArguments.firstThen (arrayBrackets.firstThen k)) := by
  simp only [typeReference, typeArguments, Pattern.firstThen_append]

/-- Arguments are read up to the last closing bracket behind which a declaration can end. -/
theorem gives_arguments {inner : Text} (oneLine : '\n' ∉ inner)
    (last : ∀ a x, t = a ++ '>' :: x → ∀ name, ¬ Declares x name)
    (h : Gives behindArguments t (some m)) :
    Gives (typeArguments.firstThen behindArguments) ('<' :: (inner ++ '>' :: t))
      (some (('<' :: (inner ++ ['>'])).map .char ++ m)) := by
  have run : ∀ c ∈ inner, (c != '\n') = true := fun c there => by
    simpa using fun newline : c = '\n' => oneLine (newline ▸ there)
  have later (a x : Text) (split : '>' :: t = a ++ x) (some_char : a ≠ []) :
      Gives ((Pattern.char '>').firstThen behindArguments) x none := by
    obtain ⟨c, a, rfl⟩ := List.exists_cons_of_ne_nil some_char
    obtain ⟨-, rest⟩ := List.cons.inj split
    cases x with
    | nil => exact Pattern.gives_one_none rfl
    | cons d x =>
      by_cases bracket : d = '>'
      · subst bracket
        exact (gives_not_declares (last a x rest)).char '>'
      · exact Pattern.gives_one_none (by simpa using bracket)
  refine Gives.optional ?_
  simp only [Pattern.firstThen_append]
  have inside := Gives.manyLast run later (h.char '>')
  have whole := TypeHeader.gives_blanks_char (by decide : isBlank '<' = false) inside
  simpa [Pattern.onLine] using whole

/-- Where no bracket opens there are no arguments. -/
theorem gives_no_arguments (other : (Text.trimStart t).head? ≠ some '<')
    (h : Gives behindArguments t (some m)) :
    Gives (typeArguments.firstThen behindArguments) t (some m) := by
  refine Gives.skip ?_ h
  simp only [Pattern.firstThen_append]
  exact TypeHeader.gives_blanks_char_none (by decide) other

theorem annotations_head {u : Text} (h : u ∈ (Pattern.char '@' ++ Pattern.many1 Java.isDottedChar
    ++ Pattern.optional (.char '(' ++ .many (· != ')') ++ .char ')') ++ Pattern.blanks1).language) :
    u.head? = some '@' := by
  obtain ⟨_, ⟨_, ⟨_, sign, _, _, rfl⟩, _, _, rfl⟩, _, _, rfl⟩ := h
  rw [Pattern.mem_language_char.1 sign]
  rfl

theorem gives_no_annotations (other : t.head? ≠ some '@') {o : Option Match} (h : Gives k t o) :
    Gives (annotations.firstThen k) t o := by
  refine Gives.stop (fun nothing => by simpa using annotations_head nothing) ?_ h
  intro u v split taken
  have first := annotations_head taken
  obtain ⟨u, rfl⟩ := List.head?_eq_some_iff.1 first
  exact other (by rw [split]; rfl)

/-- The arguments of a type with their brackets, if there are any. -/
def argumentsText (arguments : Option Text) : Text :=
  arguments.elim [] fun inner => '<' :: (inner ++ ['>'])

theorem brackets_mem_language (n : Nat) :
    (List.replicate n ['[', ']']).flatten ∈ arrayBrackets.language := by
  refine Pattern.mem_language_star.2 ⟨_, rfl, fun u there => ?_⟩
  rw [List.eq_of_mem_replicate there]
  exact mem_typeBracket.2 ⟨[], by simp, _, mem_nameBracket.2 ⟨[], by simp, rfl⟩, rfl⟩

/-- The name of a type ends where its arguments or a declaration behind it start. -/
theorem follows_type (arguments : Option Text) {name : Text} (declares : Declares t name) :
    (argumentsText arguments ++ t).head?.any Java.isDottedChar = false := by
  obtain ⟨⟨c, first, bracket⟩, -⟩ := declares.first
  cases arguments with
  | some inner => rfl
  | none =>
    have stops : Java.isDottedChar c = false := by
      rcases bracket with blank | rfl
      · by_contra goesOn
        rw [isBlank_of_isDottedChar (Bool.not_eq_false _ ▸ goesOn)] at blank
        contradiction
      · rfl
    simp [argumentsText, first, stops]

/-- A type is read with its arguments and all brackets, and then the name. -/
theorem gives_type {type name : Text} {arguments : Option Text}
    (dotted : type ≠ [] ∧ ∀ c ∈ type, Java.isDottedChar c = true)
    (oneLine : ∀ inner ∈ arguments, '\n' ∉ inner) (declares : Declares t name)
    (last : arguments.isSome → ∀ a x, t = a ++ '>' :: x → ∀ other, ¬ Declares x other) :
    ∃ dims gap rest : Text, t = dims ++ (gap ++ (name ++ rest)) ∧
      Gives ((Pattern.slot .type typeReference).firstThen (Pattern.blanks1.firstThen atName))
        (type ++ (argumentsText arguments ++ t))
        (some (marked (some .type) (type ++ (argumentsText arguments ++ dims)) ++
          (gap.map .char ++ (marked (some .name) name ++ rest.map .char)))) := by
  obtain ⟨dims, gap, rest, split, read⟩ := gives_declares declares
  obtain ⟨-, d, visible, other⟩ := declares.first
  refine ⟨dims, gap, rest, split, ?_⟩
  have ends := follows_type arguments declares
  have behind : Gives (typeArguments.firstThen behindArguments) (argumentsText arguments ++ t)
      (some ((argumentsText arguments).map .char ++ (dims.map .char ++ .closing .type ::
        (gap.map .char ++ (marked (some .name) name ++ rest.map .char))))) := by
    cases arguments with
    | none =>
      refine gives_no_arguments (fun same => ?_) read
      obtain rfl : d = '<' := Option.some.inj (visible.symm.trans same)
      rcases other with bracket | start
      · contradiction
      · exact absurd start (by decide)
    | some inner =>
      have whole := gives_arguments (oneLine inner rfl) (last rfl) read
      simpa [argumentsText] using whole
  have whole := Gives.many1 dotted.1 dotted.2 ends behind
  rw [behindArguments, ← typeReference_firstThen] at whole
  simpa [marked] using whole.slot

/-- A modifier with white space behind it stands before a text only if the name is that modifier. -/
theorem not_modifier {name : Text} (letters : ∀ w ∈ ws, w.toList.all Java.isDottedChar = true)
    (dotted : ∀ c ∈ name, Java.isDottedChar c = true) (ends : t.head?.any Java.isDottedChar = false)
    (unknown : t.head?.any isBlank = true → ∀ w ∈ ws, name ≠ w.toList)
    {u v : Text} (split : name ++ t = u ++ v) :
    u ∉ (Pattern.anyWord ws ++ Pattern.blanks1).language := by
  intro h
  obtain ⟨_, isWord, gap, isGap, rfl⟩ := Pattern.mem_language_append.1 h
  obtain ⟨w, listed, rfl⟩ := Pattern.mem_language_anyWord isWord
  obtain ⟨some_blank, blank⟩ := Pattern.mem_language_many1.1 isGap
  obtain ⟨c, gap, rfl⟩ := List.exists_cons_of_ne_nil some_blank
  have stops : Java.isDottedChar c = false := by
    by_contra goesOn
    have := isBlank_of_isDottedChar (Bool.not_eq_false _ ▸ goesOn)
    rw [blank c (by simp)] at this
    contradiction
  -- Both sides start with the same run of name characters and dots.
  have run := congrArg (List.takeWhile Java.isDottedChar) split
  rw [List.append_assoc, List.takeWhile_append_of_pos dotted,
    List.takeWhile_append_of_pos (List.all_eq_true.1 (letters w listed)), List.cons_append,
    List.takeWhile_cons_of_neg (by simp [stops]), List.append_nil] at run
  have none_left : t.takeWhile Java.isDottedChar = [] := by
    cases t with
    | nil => rfl
    | cons d t => exact List.takeWhile_cons_of_neg (by simpa using ends)
  rw [none_left, List.append_nil] at run
  subst run
  rw [List.append_assoc, List.append_cancel_left_eq] at split
  exact unknown (by simpa [split] using blank c (by simp)) w listed rfl

/-- What the lists of modifiers have in common: no modifier is the start of another, and each is a
word that cannot name a type. -/
structure IsModifierList (ws : List String) : Prop where
  apart : ∀ v ∈ ws, ∀ w ∈ ws, v.toList <+: w.toList → v = w
  some_char : ∀ w ∈ ws, w.toList ≠ []
  letters : ∀ w ∈ ws, w.toList.all Java.isDottedChar = true
  unusable : ∀ w ∈ ws, Java.canNameType w.toList = false

theorem head?_of_dotted {word rest : Text} (some_char : word ≠ [])
    (dotted : ∀ c ∈ word, Java.isDottedChar c = true) :
    (word ++ rest).head?.any isBlank = false ∧ (word ++ rest).head? ≠ some '@' := by
  obtain ⟨c, word, rfl⟩ := List.exists_cons_of_ne_nil some_char
  refine ⟨isBlank_of_isDottedChar (dotted c (by simp)), ?_⟩
  rintro ⟨rfl⟩
  exact absurd (dotted '@' (by simp)) (by decide)

/-- Modifiers are read up to a word that can name a type, or up to a bracket. -/
theorem gives_known_modifiers {word rest : Text} (list : IsModifierList ws)
    (known : ∀ w ∈ mods, w ∈ ws.map String.toList) (dotted : ∀ c ∈ word, Java.isDottedChar c = true)
    (opens : word = [] → rest.head? = some '<') (ends : rest.head?.any Java.isDottedChar = false)
    (usable : rest.head?.any isBlank = true → Java.canNameType word = true)
    (h : Gives k (word ++ rest) (some m)) :
    Gives ((modifiers ws).firstThen k) (modifiersText mods ++ (word ++ rest))
        (some ((modifiersText mods).map .char ++ m)) ∧
      (modifiersText mods ++ (word ++ rest)).head? ≠ some '@' := by
  have first : (word ++ rest).head?.any isBlank = false ∧ (word ++ rest).head? ≠ some '@' := by
    by_cases nothing : word = []
    · simp [nothing, opens nothing, isBlank]
    · exact head?_of_dotted nothing dotted
  have starts (w : String) (listed : w ∈ ws) (t : Text) :
      (w.toList ++ t).head?.any isBlank = false ∧ (w.toList ++ t).head? ≠ some '@' :=
    head?_of_dotted (list.some_char w listed) (List.all_eq_true.1 (list.letters w listed))
  constructor
  · refine gives_modifiers list.apart (fun w listed => ⟨?_, list.some_char w listed⟩) known
      first.1 ?_ h
    · simpa using (starts w listed []).1
    · intro u v split
      refine not_modifier list.letters dotted ends (fun blank w listed same => ?_) split
      have := usable blank
      rw [same, list.unusable w listed] at this
      contradiction
  · cases mods with
    | nil => exact first.2
    | cons w mods =>
      obtain ⟨w, listed, rfl⟩ := List.mem_map.1 (known w (by simp))
      rw [modifiersText_cons, List.append_assoc]
      exact (starts w listed _).2

/-- The modifiers of instance fields. -/
def instanceModifiers : List Text :=
  ["public", "private", "protected", "final", "transient", "volatile"].map String.toList

theorem matchAt_start (t : Text) :
    fieldPattern.matchAt ⟨[], t⟩ =
      annotations.firstThen ((Pattern.slot .modifiers (modifiers fieldModifiers)).firstThen
        ((Pattern.slot .type typeReference).firstThen (Pattern.blanks1.firstThen atName)))
          ⟨[], t⟩ := by
  rw [← Pattern.firstThen_some]
  simp only [fieldPattern, atName, fieldEnd, nameBracket, fieldValue, atEnd,
    Pattern.firstThen_append]
  exact Pattern.firstThen_textStart _ ⟨[], t⟩

theorem isModifierList_fieldModifiers : IsModifierList fieldModifiers :=
  ⟨by decide +kernel, by decide +kernel, by decide +kernel, by decide +kernel⟩

/-- A line that is written as a field declaration is matched from its start. -/
theorem matchAt_field {type rest : Text} (known : ∀ w ∈ mods, w ∈ instanceModifiers)
    (dotted : type ≠ [] ∧ ∀ c ∈ type, Java.isDottedChar c = true)
    (usable : Java.canNameType type = true) (ends : rest.head?.any Java.isDottedChar = false)
    (h : Gives ((Pattern.slot .type typeReference).firstThen (Pattern.blanks1.firstThen atName))
      (type ++ rest) (some m)) :
    fieldPattern.matchAt ⟨[], modifiersText mods ++ (type ++ rest)⟩ =
      some (marked (some .modifiers) (modifiersText mods) ++ m) := by
  have among : ∀ w ∈ instanceModifiers, w ∈ fieldModifiers.map String.toList := by decide
  obtain ⟨modified, bare⟩ := gives_known_modifiers isModifierList_fieldModifiers
    (fun w there => among w (known w there)) dotted.2 (fun nothing => absurd nothing dotted.1) ends
    (fun _ => usable) (h.map (.closing .modifiers :: ·))
  rw [matchAt_start, gives_no_annotations bare modified.slot []]
  simp [marked]

theorem isKeyword_of_not_dotted {w : Text} {c : Char} (there : c ∈ w)
    (other : Java.isDottedChar c = false) :
    Java.isKeyword w = false := by
  have letters : ∀ w ∈ Java.keywords, w.all Java.isDottedChar = true := by decide +kernel
  rw [Java.isKeyword, List.contains_eq_mem, decide_eq_false_iff_not]
  intro listed
  have dotted := List.all_eq_true.1 (letters w listed) c there
  simp [other] at dotted

/-- The parts of a match that have names are the marked ones. -/
theorem parts_of_field (mods type gap name rest : Text) :
    let found := marked (some .modifiers) mods ++ (marked (some .type) type ++
      (gap.map .char ++ (marked (some .name) name ++ rest.map .char)))
    Match.part found .modifiers = mods ∧ Match.part found .type = type ∧
      Match.part found .name = name := by
  refine ⟨TypeHeader.part_of_marked _ [] ?_, TypeHeader.part_of_marked _ _ ?_, ?_⟩
  · simp [TypeHeader.closing_mem_marked]
  · simp [TypeHeader.closing_mem_marked]
  · simp only [← List.append_assoc]
    rw [List.append_assoc]
    exact TypeHeader.part_of_marked _ _ (by simp)

/-- What is read of a line that is written as a field declaration. -/
theorem field?_of_declares {type name : Text} {arguments : Option Text}
    (known : ∀ w ∈ mods, w ∈ instanceModifiers)
    (dotted : type ≠ [] ∧ ∀ c ∈ type, Java.isDottedChar c = true)
    (usable : Java.canNameType type = true) (oneLine : ∀ inner ∈ arguments, '\n' ∉ inner)
    (declares : Declares t name)
    (last : arguments.isSome → ∀ a x, t = a ++ '>' :: x → ∀ other, ¬ Declares x other) :
    field? (modifiersText mods ++ (type ++ (argumentsText arguments ++ t))) =
      if Java.isKeyword name then none else some name := by
  obtain ⟨dims, gap, rest, split, read⟩ := gives_type dotted oneLine declares last
  have behind := follows_type arguments declares
  have found := Pattern.find?_of_matchAt (matchAt_field known dotted usable behind read)
  obtain ⟨modifiersOf, typeOf, nameOf⟩ :=
    parts_of_field (modifiersText mods) (type ++ (argumentsText arguments ++ dims)) gap name rest
  have dynamic : (Text.words (modifiersText mods)).contains "static".toList = false := by
    have others : ∀ w ∈ instanceModifiers, "static".toList ∉ Text.words w := by decide +kernel
    rw [words_modifiersText, List.contains_eq_mem, decide_eq_false_iff_not, List.mem_flatMap]
    rintro ⟨w, there, isStatic⟩
    exact others w (known w there) isStatic
  have named : Java.canNameType (type ++ (argumentsText arguments ++ dims)) = true := by
    cases more : argumentsText arguments ++ dims with
    | nil => rwa [List.append_nil]
    | cons c x =>
      have other : Java.isDottedChar c = false := by
        rw [split, ← List.append_assoc, more] at behind
        exact behind
      have free : Java.isKeyword (type ++ c :: x) = false := isKeyword_of_not_dotted (by simp) other
      simp [Java.canNameType, free]
  rw [field?, found, Option.bind_some, nameOf, typeOf, modifiersOf, dynamic, named]
  rfl

end Reading

/-! ## Field declarations as they are written -/

/-- The end of a field declaration, from its value on. -/
def valueText : Option Text → Text
  | none => [';']
  | some value => " = ".toList ++ value ++ [';']

/-- A declaration of an instance field on a line. What stands between the angle brackets and what is
the value are any texts. -/
structure FieldLine where
  modifiers : List Text
  type : Text
  arguments : Option Text
  dimensions : Nat
  name : Text
  value : Option Text
  known : ∀ w ∈ modifiers, w ∈ instanceModifiers
  dotted : type ≠ [] ∧ ∀ c ∈ type, Java.isDottedChar c = true
  usable : Java.canNameType type = true
  identifier : Java.isIdentifier name = true
  unreserved : Java.isKeyword name = false
  oneLine : ∀ t ∈ arguments.toList ++ value.toList, '\n' ∉ t

namespace FieldLine

variable (l : FieldLine)

/-- What stands behind the type and its arguments. -/
def tail : Text :=
  (List.replicate l.dimensions ['[', ']']).flatten ++ ' ' :: (l.name ++ valueText l.value)

/-- How a declaration is written. -/
def text : Text := modifiersText l.modifiers ++ (l.type ++ (argumentsText l.arguments ++ l.tail))

/-- Whether another declaration can be read behind the last closing bracket of the value that one
can be read behind, so that all before it is taken for the type. -/
def Shadows (name : Text) : Prop :=
  l.arguments.isSome ∧ ∃ before rest, l.tail = before ++ '>' :: rest ∧ Declares rest name ∧
    ∀ a x, rest = a ++ '>' :: x → ∀ other, ¬ Declares x other

theorem declares_tail : Declares l.tail l.name := by
  have name := mem_name_of_isIdentifier l.identifier
  have rest : valueText l.value ∈ fieldEnd.language := by
    refine mem_fieldEnd.2 ?_
    cases h : l.value with
    | none =>
      exact ⟨[], by simp, [], by simp, [], by simp, [], mem_fieldValue.2 (.inl rfl), [], by simp, rfl⟩
    | some value =>
      have oneLine : '\n' ∉ ' ' :: value := by
        simpa using l.oneLine value (by simp [h])
      exact ⟨[' '], by simp [isBlank], [], by simp, [], by simp, '=' :: ' ' :: value,
        mem_fieldValue.2 (.inr ⟨_, oneLine, rfl⟩), [], by simp, by simp [valueText]⟩
  exact ⟨_, brackets_mem_language l.dimensions, [' '],
    Pattern.mem_language_many1.2 ⟨by simp, by simp [isBlank]⟩, _, rest, name, rfl⟩

theorem newline_not_mem_tail : '\n' ∉ l.tail := by
  have name : '\n' ∉ l.name := fun there => by
    have := isNameChar_of_isIdentifier l.identifier there
    contradiction
  have value : '\n' ∉ valueText l.value := by
    cases h : l.value with
    | none => decide
    | some value => simpa [valueText] using l.oneLine value (by simp [h])
  simp [tail, name, value]

/-- If a declaration can be read behind some closing bracket, there is a last such bracket. -/
theorem exists_last_declaration {t : Text} (h : ∃ a x name, t = a ++ '>' :: x ∧ Declares x name) :
    ∃ a x name, t = a ++ '>' :: x ∧ Declares x name ∧
      ∀ b y, x = b ++ '>' :: y → ∀ other, ¬ Declares y other := by
  obtain ⟨a, x, name, rfl, declares⟩ := h
  -- Going on to a later bracket makes what is left shorter.
  induction size : x.length using Nat.strong_induction_on generalizing a x name with
  | _ n ih =>
    by_cases later : ∃ b y other, x = b ++ '>' :: y ∧ Declares y other
    · obtain ⟨b, y, other, rfl, further⟩ := later
      have shorter : y.length < n := by
        simp only [← size, List.length_append, List.length_cons]
        omega
      obtain ⟨c, z, found, same, rest⟩ := ih y.length shorter (a ++ '>' :: b) y other further rfl
      exact ⟨c, z, found, by simpa using same, rest⟩
    · exact ⟨a, x, name, rfl, declares, fun b y split other further =>
        later ⟨b, y, other, split, further⟩⟩

/-- If the value shadows the name, what is read is what the value declares. -/
theorem field?_of_shadows {name : Text} (h : l.Shadows name) :
    field? l.text = if Java.isKeyword name then none else some name := by
  obtain ⟨arguments, before, rest, split, declares, last⟩ := h
  obtain ⟨inner, same⟩ := Option.isSome_iff_exists.1 arguments
  have oneLine : ∀ t ∈ some (inner ++ '>' :: before), '\n' ∉ t := by
    rintro _ ⟨rfl⟩
    have newline := l.newline_not_mem_tail
    rw [split] at newline
    have first := l.oneLine inner (by simp [same])
    simp_all
  have read := field?_of_declares l.known l.dotted l.usable oneLine declares fun _ => last
  have whole : argumentsText (some (inner ++ '>' :: before)) ++ rest =
      argumentsText l.arguments ++ l.tail := by
    simp [argumentsText, same, split]
  rwa [whole] at read

/-- If nothing shadows the name, it is read. -/
theorem field?_of_not_shadows (h : ∀ name, ¬ l.Shadows name) : field? l.text = some l.name := by
  have oneLine : ∀ inner ∈ l.arguments, '\n' ∉ inner := fun inner there =>
    l.oneLine inner (by simp_all)
  have read := field?_of_declares l.known l.dotted l.usable oneLine l.declares_tail
    fun arguments a x split other further => by
      obtain ⟨b, y, name, same, declares, last⟩ :=
        exists_last_declaration ⟨a, x, other, split, further⟩
      exact h name ⟨arguments, b, y, same, declares, last⟩
  rwa [l.unreserved] at read

end FieldLine

/-- The declared name is read back exactly if every declaration that the value shadows it with is of
the same name. Without arguments of the type, or without a closing angle bracket in the value, none
does. -/
theorem field_name_is_read_iff (l : FieldLine) :
    field? l.text = some l.name ↔ ∀ name, l.Shadows name → name = l.name := by
  constructor
  · intro read name shadows
    rw [l.field?_of_shadows shadows] at read
    split at read
    · contradiction
    · exact Option.some.inj read
  · intro same
    by_cases shadowed : ∃ name, l.Shadows name
    · obtain ⟨name, shadows⟩ := shadowed
      rw [l.field?_of_shadows shadows, same name shadows, l.unreserved]
      rfl
    · exact l.field?_of_not_shadows (not_exists.1 shadowed)

/-- An arrow in the value ends the arguments of the type, and the name that is read is the one
behind it. -/
theorem lambda_value_is_read_as_field :
    ∃ l : FieldLine, l.text = "private Supplier<Integer> s = () -> count;".toList ∧
      l.name = "s".toList ∧ field? l.text = some "count".toList := by
  refine ⟨{
    modifiers := ["private".toList]
    type := "Supplier".toList
    arguments := some "Integer".toList
    dimensions := 0
    name := "s".toList
    value := some "() -> count".toList
    known := by decide
    dotted := ⟨by decide, List.all_eq_true.1 (by decide)⟩
    usable := by decide
    identifier := by decide
    unreserved := by decide
    oneLine := by simp }, by decide, rfl, ?_⟩
  decide +kernel

end Member

end CodeGauge
