import CodeGauge.Proofs.Source.TypeParams

/-!
# Headers are read as they are written

A header is written from its parts: the kind and name of the type, its parameters with their bounds,
and up to three lists of types. `headers_parse_back` says that all headers of a source are found and
read back, whatever types they list.
-/

namespace CodeGauge

open Pattern (Gives)

/-! ## Headers as they are written -/

/-- A type header. -/
structure Header where
  kind : TypeKind
  name : Text
  params : List TypeParam
  extended : List TypeRef
  implemented : List TypeRef
  permitted : List TypeRef
  identifier : Java.isIdentifier name = true

namespace Header

/-- How a header is written, up to the brace that opens the body. -/
def text (h : Header) : Text :=
  h.kind.keyword.toList ++ ' ' ::
    (h.name ++ (paramsText h.params ++ (clauseText "extends" h.extended ++
    (clauseText "implements" h.implemented ++ (clauseText "permits" h.permitted ++ [' ', '{'])))))

/-- The declaration that a header makes. -/
def decl (h : Header) : TypeDecl where
  kind := h.kind
  name := h.name
  extended := h.extended.map fun r => TypeList.canonical r.text
  implemented := h.implemented.map fun r => TypeList.canonical r.text

end Header

namespace TypeHeader

/-! ## Reading a header -/

theorem head?_identifier {name : Text} (identifier : Java.isIdentifier name = true) (t : Text) :
    (name ++ t).head?.any isBlank = false := by
  cases name with
  | nil => simp [Java.isIdentifier] at identifier
  | cons c rest =>
    have : Java.isNameChar c = true := isNameChar_of_isIdentifier identifier (List.mem_cons_self ..)
    simpa using isBlank_of_isDottedChar (by simp [Java.isDottedChar, this])

theorem head?_keyword (kind : TypeKind) (t : Text) :
    (kind.keyword.toList ++ t).head?.any isWordChar = true := by
  cases kind <;> rfl

section Parts

variable {k : Spot → Option Match} {t : Text} {m : Match}

theorem gives_kind (kind : TypeKind) (h : Gives k t (some m)) :
    Gives ((Pattern.slot .kind (.anyWord ["class", "interface", "enum"])).firstThen k)
      (kind.keyword.toList ++ t) (some (marked (some .kind) kind.keyword.toList ++ m)) := by
  have word (w : String) :
      Gives ((Pattern.word w).firstThen fun s => (k s).map (.closing .kind :: ·))
      (w.toList ++ t) (some (w.toList.map .char ++ .closing .kind :: m)) :=
    Gives.literal _ (h.map (.closing .kind :: ·))
  have read : Gives ((Pattern.anyWord ["class", "interface", "enum"]).firstThen
      fun s => (k s).map (.closing .kind :: ·)) (kind.keyword.toList ++ t)
      (some (kind.keyword.toList.map .char ++ .closing .kind :: m)) := by
    cases kind with
    | classKind => exact (word "class").left
    | interfaceKind =>
      exact .right (Pattern.gives_literal_none (by simp [TypeKind.keyword])) (word "interface").left
    | enumKind =>
      exact .right (Pattern.gives_literal_none (by simp [TypeKind.keyword]))
        (.right (Pattern.gives_literal_none (by simp [TypeKind.keyword])) (word "enum"))
  simpa [marked] using read.slot

theorem gives_name {name : Text} (identifier : Java.isIdentifier name = true)
    (ends : t.head?.any Java.isNameChar = false) (h : Gives k t (some m)) :
    Gives ((Pattern.slot .name Java.name).firstThen k) (name ++ t)
      (some (marked (some .name) name ++ m)) := by
  cases name with
  | nil => simp [Java.isIdentifier] at identifier
  | cons c rest =>
    have start : Java.isNameStart c = true := by
      rw [Java.isIdentifier, Bool.and_eq_true] at identifier
      exact identifier.1
    have others : ∀ d ∈ rest, Java.isNameChar d = true := fun d there =>
      isNameChar_of_isIdentifier identifier (List.mem_cons_of_mem _ there)
    have read :
        Gives (Java.name.firstThen fun s => (k s).map (.closing .name :: ·)) (c :: (rest ++ t))
        (some (.char c :: (rest.map .char ++ .closing .name :: m))) := by
      rw [Java.name, Pattern.firstThen_append]
      exact Gives.one start (Gives.many others ends (h.map (.closing .name :: ·)))
    simpa [marked] using read.slot

end Parts

/-- Reading on at the keyword of a header. -/
def atKeyword : Spot → Option Match :=
  (Pattern.slot .kind (.anyWord ["class", "interface", "enum"])).firstThen
    (Pattern.blanks1.firstThen
      ((Pattern.slot .name Java.name).firstThen (paramsPattern.firstThen atExtends)))

theorem matchAt_eq (s : Spot) : pattern.matchAt s = if s.onWordEdge then atKeyword s else none := by
  rw [← Pattern.firstThen_some, pattern]
  simp only [Pattern.firstThen_append]
  exact Pattern.firstThen_wordEdge _ s

/-- Where no keyword stands there is no header. -/
theorem matchAt_eq_none {t : Text} (absent : ∀ kind : TypeKind, ¬ kind.keyword.toList <+: t)
    (before : Text) : pattern.matchAt ⟨before, t⟩ = none := by
  have words : Gives atKeyword t none :=
    .slot (o := none) (.right (Pattern.gives_literal_none (absent .classKind))
      (.right (Pattern.gives_literal_none (absent .interfaceKind))
        (Pattern.gives_literal_none (absent .enumKind))))
  rw [matchAt_eq, words before, ite_self]

end TypeHeader

namespace Header

open TypeHeader

/-- A header as it is matched. -/
def pieces (h : Header) : Match :=
  marked (some .kind) h.kind.keyword.toList ++ .char ' ' :: (marked (some .name) h.name ++
    ((paramsText h.params).map .char ++ (clauseMatch "extends" (some .extended) h.extended ++
      (clauseMatch "implements" (some .implemented) h.implemented ++
        (clauseMatch "permits" none h.permitted ++ [.char ' ', .char '{'])))))

variable (h : Header)

theorem text_pieces : Match.text h.pieces = h.text := by
  simp [pieces, text, marked, text_clauseMatch]

/-- A header is matched as it is written. -/
theorem matchAt_text {before : Text} (edge : before.head?.any isWordChar = false) (more : Text) :
    TypeHeader.pattern.matchAt ⟨before, h.text ++ more⟩ = some h.pieces := by
  have clauses := gives_atExtends h.extended h.implemented h.permitted more
  have follows := follows_clauses h.extended h.implemented h.permitted more
  have params := gives_params h.params follows clauses
  have name := gives_name h.identifier (head?_paramsText h.params follows) params
  have keyword : Gives atKeyword _ _ :=
    gives_kind h.kind (gives_blanks1 (head?_identifier h.identifier _) name)
  have onEdge : (Spot.mk before (h.text ++ more)).onWordEdge = true := by
    rw [Spot.onWordEdge, edge, text, List.append_assoc, head?_keyword]
    rfl
  rw [matchAt_eq, if_pos onEdge]
  simpa [text, pieces] using keyword before

/-- The parts of the match make the declaration. -/
theorem decl?_pieces : TypeHeader.decl? h.pieces = some h.decl := by
  have kind : Match.part h.pieces .kind = h.kind.keyword.toList := by
    refine part_of_marked _ [] ?_
    simp [closing_mem_marked, closing_mem_clauseMatch]
  have name : Match.part h.pieces .name = h.name := by
    rw [pieces, ← List.singleton_append, ← List.append_assoc]
    refine part_of_marked _ _ ?_
    simp [closing_mem_clauseMatch]
  have extended : Match.part h.pieces .extended = listText h.extended := by
    have order : h.pieces =
        (marked (some .kind) h.kind.keyword.toList ++ .char ' ' :: (marked (some .name) h.name ++
          (paramsText h.params).map .char)) ++
        (clauseMatch "extends" (some .extended) h.extended ++
          (clauseMatch "implements" (some .implemented) h.implemented ++
            (clauseMatch "permits" none h.permitted ++ [.char ' ', .char '{']))) := by
      simp [pieces]
    rw [order, part_clauseMatch _ (by simp [closing_mem_marked])
      (by simp [closing_mem_clauseMatch])]
  have implemented : Match.part h.pieces .implemented = listText h.implemented := by
    have order : h.pieces =
        (marked (some .kind) h.kind.keyword.toList ++ .char ' ' :: (marked (some .name) h.name ++
          ((paramsText h.params).map .char ++
            clauseMatch "extends" (some .extended) h.extended))) ++
        (clauseMatch "implements" (some .implemented) h.implemented ++
          (clauseMatch "permits" none h.permitted ++ [.char ' ', .char '{'])) := by
      simp [pieces]
    rw [order, part_clauseMatch _ (by simp [closing_mem_marked, closing_mem_clauseMatch])
      (by simp [closing_mem_clauseMatch])]
  have known : TypeKind.ofKeyword? h.kind.keyword.toList = some h.kind := by
    cases h.kind <;> decide
  simp [TypeHeader.decl?, kind, known, name, extended, implemented, supertypes_listText, decl]

end Header

namespace TypeHeader

/-- The end of a body: a closing brace on a line of its own. -/
def bodyEnd : Text := ['\n', '}', '\n']

theorem findFrom_nil (before : Text) : pattern.findFrom before [] = [] := by
  have nothing := matchAt_eq_none (t := []) (by rintro (_ | _ | _) <;> decide) before
  simp [Pattern.findFrom, Pattern.placesFrom, Pattern.select, nothing]

/-- No header starts in the end of a body. -/
theorem findFrom_bodyEnd (before t : Text) :
    pattern.findFrom before (bodyEnd ++ t) =
      pattern.findFrom ('\n' :: '}' :: '\n' :: before) t := by
  have skip {c : Char} (sign : c = '\n' ∨ c = '}') (before t : Text) :
      pattern.findFrom before (c :: t) = pattern.findFrom (c :: before) t := by
    refine Pattern.findFrom_skip (matchAt_eq_none (fun kind => ?_) before)
    rcases sign with rfl | rfl <;> cases kind <;> simp [TypeKind.keyword]
  show pattern.findFrom before ('\n' :: '}' :: '\n' :: t) = _
  rw [skip (.inl rfl), skip (.inr rfl), skip (.inl rfl)]

/-- All headers are found, one after the other. -/
theorem findFrom_headers (hs : List Header) {before : Text}
    (edge : before.head?.any isWordChar = false) :
    pattern.findFrom before (Text.join bodyEnd (hs.map Header.text)) = hs.map Header.pieces := by
  induction hs generalizing before with
  | nil => exact findFrom_nil before
  | cons h hs ih =>
    have found (more : Text) : pattern.findFrom before (h.text ++ more) =
        h.pieces :: pattern.findFrom (h.text.reverse ++ before) more :=
      Pattern.findFrom_match (by simp [Header.text]) h.text_pieces (h.matchAt_text edge more)
    cases hs with
    | nil =>
      have only := found []
      rw [findFrom_nil, List.append_nil] at only
      simpa [Text.join, List.intercalate] using only
    | cons next hs =>
      rw [List.map_cons, List.map_cons, Text.join_cons_cons, found, findFrom_bodyEnd]
      exact congrArg (h.pieces :: ·) (ih rfl)

/-- Headers are read back as they are written: every one is found, in order, with the kind, the name
and the supertypes that it was written with. -/
theorem headers_parse_back (hs : List Header) :
    declarations (Text.join bodyEnd (hs.map Header.text)) = hs.map Header.decl := by
  rw [declarations, Pattern.findAll_eq_findFrom, findFrom_headers hs rfl, List.filterMap_map]
  simp [Header.decl?_pieces]

/-- A header with a bound, nested arguments and a wildcard. -/
def tableHeader : Header where
  kind := .classKind
  name := "Table".toList
  params := [{
    name := "K".toList
    bounds := [{
      name := "Comparable".toList
      arguments := "<K>".toList
      dotted := ⟨by decide, List.all_eq_true.1 (by decide)⟩
      enclosed := .inr ⟨"K".toList, by decide, rfl⟩
      inHeader := by simp
      noClause := by decide }]
    identifier := by decide
    wildcards := by decide }]
  extended := [{
    name := "Base".toList
    arguments := "<Map<K, ? extends List<K>>>".toList
    dotted := ⟨by decide, List.all_eq_true.1 (by decide)⟩
    enclosed := .inr ⟨"Map<K, ? extends List<K>>".toList, by decide, rfl⟩
    inHeader := by simp
    noClause := by decide }]
  implemented := [{
    name := "java.io.Closeable".toList
    arguments := []
    dotted := ⟨by decide, List.all_eq_true.1 (by decide)⟩
    enclosed := .inl rfl
    inHeader := by simp
    noClause := by decide }]
  permitted := []
  identifier := by decide

theorem tableHeader_parses_back :
    declarations
      ("class Table<K extends Comparable<K>> extends Base<Map<K, ? extends List<K>>>".toList
        ++ " implements java.io.Closeable \x7b".toList) =
      [{ kind := .classKind
         name := "Table".toList
         extended := ["Base<Map<K,? extends List<K>>>".toList]
         implemented := ["java.io.Closeable".toList] }] := by
  have spelled : Text.join bodyEnd ([tableHeader].map Header.text) =
      "class Table<K extends Comparable<K>> extends Base<Map<K, ? extends List<K>>>".toList
        ++ " implements java.io.Closeable \x7b".toList := by decide +kernel
  rw [← spelled, headers_parse_back]
  decide +kernel

end TypeHeader

end CodeGauge
