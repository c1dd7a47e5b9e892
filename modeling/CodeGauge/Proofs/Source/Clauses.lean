import CodeGauge.Proofs.Pattern.Reading
import CodeGauge.Proofs.Source.TypeRef

/-!
# The clauses of a type header

Behind its name and parameters a header has up to three lists of types, each after a keyword, and
then the brace that opens the body. `gives_atExtends` says that all of this is read as it is
written.

The pattern of a clause takes as little as possible, so it has to be shown that no earlier end will
do. A text at which neither the body nor a later clause can start is `Blocked`, and so is every
place inside a list (`listText_blocked`).
-/

namespace CodeGauge

open Pattern (Gives)

/-- How a clause is written, if it lists any types. -/
def clauseText (keyword : String) : List TypeRef → Text
  | [] => []
  | refs => ' ' :: (keyword.toList ++ ' ' :: listText refs)

/-! ## Where a header cannot go on -/

namespace TypeHeader

/-- The words that start a clause. -/
def clauseWords : List Text := ["extends".toList, "implements".toList, "permits".toList]

theorem mem_clauseWords {w : Text} :
    w ∈ clauseWords ↔ w = "extends".toList ∨ w = "implements".toList ∨ w = "permits".toList := by
  simp [clauseWords]

/-- Whether neither the body of a type nor one of the given clauses can start at a text. -/
structure Blocked (words : List Text) (t : Text) : Prop where
  brace : (Text.trimStart t).head? ≠ some '{'
  clause : t.head?.any isBlank = true → Text.firstWord t ∉ words

/-- A text is blocked if its first visible character starts neither a body nor a clause. -/
theorem blocked_of_head {words : List Text} {t : Text} {c : Char}
    (head : (Text.trimStart t).head? = some c) (other : c ≠ '{')
    (no_word : ∀ w ∈ words, w.head? ≠ some c) : Blocked words t := by
  refine ⟨by simpa [head] using other, ?_⟩
  intro _ there
  apply no_word _ there
  obtain ⟨rest, same⟩ := List.head?_eq_some_iff.1 head
  have visible : isBlank c = false := by
    have := List.head?_dropWhile_not isBlank t
    rw [← Text.trimStart, head] at this
    simpa using this
  simp [Text.firstWord, same, visible]

/-- No body starts in a text without braces that holds something visible. -/
theorem brace_of_not_mem {v : Text} (visible : Text.trimStart v ≠ []) (none : '{' ∉ v) (t : Text) :
    (Text.trimStart (v ++ t)).head? ≠ some '{' := by
  rw [Text.trimStart_append visible, List.head?_append_of_ne_nil _ visible]
  intro brace
  exact none ((List.dropWhile_sublist _).subset (List.mem_of_mem_head? brace))

/-- What may stand behind a clause: the body, or one of the given clauses. -/
inductive Follows (words : List Text) : Text → Prop where
  | body (more : Text) : Follows words (' ' :: '{' :: more)
  | clause {w : Text} (known : w ∈ clauseWords) (later : w ∈ words) (more : Text) :
      Follows words (' ' :: (w ++ ' ' :: more))

/-- The keyword of a clause, with white space around it, is a word. -/
theorem firstWord_clause {w u : Text} {c : Char} (known : w ∈ clauseWords)
    (before : ∀ d ∈ u, isBlank d = true) (after : isBlank c = true) (more : Text) :
    Text.firstWord (u ++ (w ++ c :: more)) = w := by
  rw [Text.firstWord_blanks before]
  rcases mem_clauseWords.1 known with rfl | rfl | rfl <;>
    rw [Text.firstWord_append_blank after (by decide)] <;> rfl

namespace Follows

variable {words : List Text} {t : Text}

theorem mono {words' : List Text} (sub : words ⊆ words') (h : Follows words t) :
    Follows words' t := by
  cases h with
  | body more => exact .body more
  | clause known later more => exact .clause known (sub later) more

theorem blank (h : Follows words t) : ∃ more, t = ' ' :: more := by
  cases h <;> exact ⟨_, rfl⟩

theorem clauseText {keyword : String} (known : keyword.toList ∈ clauseWords) (refs : List TypeRef)
    (h : Follows words t) : Follows (keyword.toList :: words) (clauseText keyword refs ++ t) := by
  cases refs with
  | nil => exact h.mono (List.subset_cons_self ..)
  | cons r refs =>
    have : Follows (keyword.toList :: words)
        (' ' :: (keyword.toList ++ ' ' :: (listText (r :: refs) ++ t))) :=
      .clause known (List.mem_cons_self ..) _
    simpa [CodeGauge.clauseText] using this

/-- White space apart, a letter or the brace comes next. -/
theorem head?_trimStart (h : Follows words t) : (Text.trimStart t).head? ≠ some '<' := by
  cases h with
  | body more => simp [Text.trimStart, isBlank]
  | clause known later more =>
    rcases mem_clauseWords.1 known with rfl | rfl | rfl <;> simp [Text.trimStart, isBlank]

theorem firstWord_ne {w : Text} (known : w ∈ clauseWords) (passed : w ∉ words)
    (h : Follows words t) : Text.firstWord t ≠ w := by
  cases h with
  | body more =>
    rintro rfl
    rcases mem_clauseWords.1 known with same | same | same <;>
      simp [Text.firstWord, Text.trimStart, isBlank] at same
  | clause known' later more =>
    have space : isBlank ' ' = true := by decide
    have word := firstWord_clause (u := [' ']) known' (by simp [space]) space more
    rw [List.singleton_append] at word
    rw [word]
    rintro rfl
    exact passed later

end Follows

/-- Inside a list no later clause starts. -/
theorem listText_blocked {words : List Text} {refs : List TypeRef} {a v t : Text}
    (same : listText refs = a ++ v) (left : v ≠ []) (follows : Follows words t) :
    Blocked ["implements".toList, "permits".toList] (v ++ t) := by
  obtain ⟨more, rfl⟩ := follows.blank
  obtain ⟨r, refs, rfl⟩ : ∃ r rest, refs = r :: rest := by
    cases refs with
    | nil => simp_all [listText_nil]
    | cons r rest => exact ⟨r, rest, rfl⟩
  have visible : Text.trimStart v ≠ [] := (same ▸ listText_visible r refs).trimStart_suffix left
  constructor
  · apply brace_of_not_mem visible
    intro there
    exact (mem_listText (by rw [same]; exact List.mem_append_right a there)).1 rfl
  · intro blank
    rw [Text.firstWord_append_blank (by decide) visible]
    have blank : v.head?.any isBlank = true := by
      rwa [List.head?_append_of_ne_nil _ left] at blank
    have word := Text.firstWord_mem_words_append blank visible a
    rw [← same] at word
    simpa using words_listText word

/-! ## Reading clauses -/

/-- A pattern that may be given a name. -/
def labelled : Option Slot → Pattern → Pattern
  | none, p => p
  | some label, p => .slot label p

/-- A text as part of a match, with marks around it if it has a name. -/
def marked : Option Slot → Text → Match
  | none, u => u.map .char
  | some label, u => .opening label :: (u.map .char ++ [.closing label])

/-- A clause as part of a match. -/
def clauseMatch (keyword : String) (label : Option Slot) : List TypeRef → Match
  | [] => []
  | refs => .char ' ' :: (keyword.toList.map .char ++ .char ' ' :: marked label (listText refs))

theorem closing_mem_marked {label : Option Slot} {l : Slot} {u : Text} :
    .closing l ∈ marked label u ↔ label = some l := by
  cases label <;> simp [marked, eq_comm]

theorem closing_mem_clauseMatch {keyword : String} {label : Option Slot} {l : Slot}
    {refs : List TypeRef} :
    .closing l ∈ clauseMatch keyword label refs ↔ refs ≠ [] ∧ label = some l := by
  cases refs <;> simp [clauseMatch, closing_mem_marked]

theorem part_of_marked {label : Slot} (u : Text) (m : Match) {n : Match}
    (last : .closing label ∉ n) :
    Match.part (m ++ (marked (some label) u ++ n)) label = u := by
  simpa [marked] using Match.part_marked m u last

/-- The part of a match that a clause gives a name to is the list. -/
theorem part_clauseMatch {keyword : String} {label : Slot} (refs : List TypeRef) {m n : Match}
    (first : .closing label ∉ m) (last : .closing label ∉ n) :
    Match.part (m ++ (clauseMatch keyword (some label) refs ++ n)) label = listText refs := by
  cases refs with
  | nil => exact Match.part_absent (by simp [clauseMatch, first, last])
  | cons r refs =>
    have := part_of_marked (listText (r :: refs))
      (m ++ .char ' ' :: (keyword.toList.map .char ++ [.char ' '])) last
    simpa [clauseMatch] using this

theorem text_clauseMatch (keyword : String) (label : Option Slot) (refs : List TypeRef) :
    Match.text (clauseMatch keyword label refs) = clauseText keyword refs := by
  cases refs <;> cases label <;> simp [clauseMatch, clauseText, marked]

section Clauses

variable {k : Spot → Option Match} {keyword : String} {t : Text} {m : Match}

theorem gives_blanks1 (visible : t.head?.any isBlank = false) (h : Gives k t (some m)) :
    Gives (Pattern.blanks1.firstThen k) (' ' :: t) (some (.char ' ' :: m)) := by
  show Gives ((Pattern.one isBlank ++ Pattern.many isBlank).firstThen k) _ _
  rw [Pattern.firstThen_append]
  have rest : Gives ((Pattern.many isBlank).firstThen k) t (some m) :=
    Gives.many (u := []) (by simp) visible h
  exact rest.one (by decide)

theorem gives_blanks1_none (visible : t.head?.any isBlank = false) :
    Gives (Pattern.blanks1.firstThen k) t none := by
  show Gives ((Pattern.one isBlank ++ Pattern.many isBlank).firstThen k) _ _
  rw [Pattern.firstThen_append]
  exact Pattern.gives_one_none visible

/-- A clause cannot start where its keyword is not the next word, after white space. -/
theorem gives_clause_none {body : Pattern} (known : keyword.toList ∈ clauseWords)
    (other : t.head?.any isBlank = true → Text.firstWord t ≠ keyword.toList) :
    Gives ((.blanks1 ++ .word keyword ++ .blanks1 ++ body : Pattern).firstThen k) t none := by
  rw [Pattern.firstThen_append, Pattern.firstThen_append, Pattern.firstThen_append]
  by_cases blank : t.head?.any isBlank = true
  · obtain ⟨c, t, rfl, first⟩ := Text.exists_cons_of_head? blank
    show Gives ((Pattern.one isBlank ++ Pattern.many isBlank).firstThen _) _ _
    rw [Pattern.firstThen_append]
    refine Gives.one (o := none) first (Pattern.gives_span_none ?_)
    intro u v split run
    by_cases here : keyword.toList <+: v
    · obtain ⟨rest, rfl⟩ := here
      refine Gives.literal (o := none) _ (gives_blanks1_none ?_)
      by_contra behind
      obtain ⟨d, rest, rfl, after⟩ := Text.exists_cons_of_head? (Bool.not_eq_false _ ▸ behind)
      apply other blank
      have run : ∀ d ∈ c :: u, isBlank d = true := by simpa [first] using run
      rw [split, ← List.cons_append]
      exact firstWord_clause known run after rest
    · exact Pattern.gives_literal_none here
  · exact gives_blanks1_none (by simpa using blank)

/-- Where a clause cannot start, it is left out. -/
theorem gives_clause_skip {body : Pattern → Pattern} {o : Option Match}
    (known : keyword.toList ∈ clauseWords)
    (other : t.head?.any isBlank = true → Text.firstWord t ≠ keyword.toList) (h : Gives k t o) :
    Gives ((clause keyword body).firstThen k) t o :=
  (gives_clause_none known other).skip h

theorem gives_plain_list {words : List Text} (r : TypeRef) (refs : List TypeRef)
    (follows : Follows words t)
    (stuck : ∀ x, Blocked ["implements".toList, "permits".toList] x → Gives k x none)
    (h : Gives k t (some m)) :
    Gives ((Pattern.few1 (Pattern.noneOf ['{', ';'])).firstThen k) (listText (r :: refs) ++ t)
      (some ((listText (r :: refs)).map .char ++ m)) := by
  obtain ⟨c, u, same⟩ := List.exists_cons_of_ne_nil (listText_visible r refs).ne_nil
  have fits {d : Char} (there : d ∈ listText (r :: refs)) : Pattern.noneOf ['{', ';'] d = true := by
    simpa [Pattern.noneOf] using mem_listText there
  show Gives ((Pattern.one _ ++ Pattern.few _).firstThen k) _ _
  rw [Pattern.firstThen_append, same]
  have rest : Gives ((Pattern.few (Pattern.noneOf ['{', ';'])).firstThen k) (u ++ t)
      (some (u.map .char ++ m)) := by
    refine Gives.few (fun d there => fits (by simp [same, there])) ?_ h
    intro a v split left
    exact stuck _ (listText_blocked (a := c :: a) (by rw [same, split]; rfl) left follows)
  exact rest.one (fits (by simp [same]))

/-- A list is read to its end, if one cannot go on inside it. -/
theorem gives_list {words : List Text} (label : Option Slot) (r : TypeRef) (refs : List TypeRef)
    (follows : Follows words t)
    (stuck : ∀ x, Blocked ["implements".toList, "permits".toList] x → Gives k x none)
    (h : Gives k t (some m)) :
    Gives ((labelled label (.few1 (Pattern.noneOf ['{', ';']))).firstThen k)
      (listText (r :: refs) ++ t) (some (marked label (listText (r :: refs)) ++ m)) := by
  cases label with
  | none => exact gives_plain_list r refs follows stuck h
  | some label =>
    have inner := gives_plain_list r refs follows
      (fun x blocked => (stuck x blocked).map (.closing label :: ·)) (h.map (.closing label :: ·))
    simpa [marked, labelled] using inner.slot

/-- A clause is read as it is written. -/
theorem gives_clause {words : List Text} (label : Option Slot) (refs : List TypeRef)
    (known : keyword.toList ∈ clauseWords) (follows : Follows words t)
    (passed : keyword.toList ∉ words)
    (stuck : ∀ x, Blocked ["implements".toList, "permits".toList] x → Gives k x none)
    (h : Gives k t (some m)) :
    Gives ((clause keyword (labelled label)).firstThen k) (clauseText keyword refs ++ t)
      (some (clauseMatch keyword label refs ++ m)) := by
  cases refs with
  | nil => exact gives_clause_skip known (fun _ => follows.firstWord_ne known passed) h
  | cons r refs =>
    have visible {w : Text} (word : w ∈ clauseWords) (more : Text) :
        (w ++ more).head?.any isBlank = false := by
      rcases mem_clauseWords.1 word with rfl | rfl | rfl <;> rfl
    have list := gives_list label r refs follows stuck h
    have first : (listText (r :: refs) ++ t).head?.any isBlank = false := by
      obtain ⟨c, u, same, visible⟩ := (listText_visible r refs).first
      simpa [same] using visible
    have clause := gives_blanks1 (visible known _)
      (Gives.literal keyword.toList (gives_blanks1 first list))
    refine Gives.optional ?_
    rw [Pattern.firstThen_append, Pattern.firstThen_append, Pattern.firstThen_append]
    simpa [clauseText, clauseMatch, Pattern.word] using clause

end Clauses

/-! ## Reading all clauses and the brace -/

/-- Reading on at the brace that opens the body. -/
def atBody : Spot → Option Match :=
  Pattern.blanks.firstThen ((Pattern.char '{').firstThen fun _ => some [])

/-- Reading on at the permitted types, if there are any. -/
def atPermits : Spot → Option Match := (clause "permits" id).firstThen atBody

/-- Reading on at the implemented types, if there are any. -/
def atImplements : Spot → Option Match :=
  (clause "implements" (.slot .implemented)).firstThen atPermits

/-- Reading on at the extended types, if there are any. -/
def atExtends : Spot → Option Match := (clause "extends" (.slot .extended)).firstThen atImplements

theorem gives_blanks_char {k : Spot → Option Match} {t : Text} {m : Match} {c : Char}
    (visible : isBlank c = false) (h : Gives k t (some m)) :
    Gives (Pattern.blanks.firstThen ((Pattern.char c).firstThen k)) (c :: t)
      (some (.char c :: m)) :=
  Gives.many (u := []) (by simp) (by simpa using visible) (Gives.one (by simp) h)

theorem gives_blanks_char_none {k : Spot → Option Match} {t : Text} {c : Char}
    (visible : isBlank c = false) (other : (Text.trimStart t).head? ≠ some c) :
    Gives (Pattern.blanks.firstThen ((Pattern.char c).firstThen k)) t none := by
  refine Pattern.gives_span_none fun u v split blank => Pattern.gives_one_none ?_
  by_contra here
  obtain ⟨d, rest, rfl, same⟩ := Text.exists_cons_of_head? (Bool.not_eq_false _ ▸ here)
  obtain rfl : d = c := by simpa using same
  apply other
  rw [split, Text.trimStart, List.dropWhile_append_of_pos blank]
  simp [visible]

namespace Blocked

variable {words : List Text} {t : Text}

theorem atBody (h : Blocked words t) : Gives atBody t none :=
  gives_blanks_char_none (by decide) h.brace

theorem clause_none {keyword : String} {body : Pattern → Pattern} {k : Spot → Option Match}
    (h : Blocked words t) (known : keyword.toList ∈ clauseWords) (listed : keyword.toList ∈ words)
    (rest : Gives k t none) : Gives ((TypeHeader.clause keyword body).firstThen k) t none :=
  gives_clause_skip known (fun blank same => h.clause blank (same ▸ listed)) rest

theorem atPermits (h : Blocked words t) (permits : "permits".toList ∈ words) :
    Gives atPermits t none :=
  h.clause_none (by decide) permits h.atBody

theorem atImplements (h : Blocked words t) (implements : "implements".toList ∈ words)
    (permits : "permits".toList ∈ words) : Gives atImplements t none :=
  h.clause_none (by decide) implements (h.atPermits permits)

theorem atExtends (h : Blocked clauseWords t) : Gives atExtends t none :=
  h.clause_none (by decide) (by decide) (h.atImplements (by decide) (by decide))

end Blocked

theorem gives_atBody (more : Text) :
    Gives atBody (' ' :: '{' :: more) (some [.char ' ', .char '{']) := by
  have brace :
      Gives ((Pattern.char '{').firstThen fun _ => some []) ('{' :: more) (some [.char '{']) :=
    Gives.one (o := some []) (by decide) fun _ => rfl
  exact Gives.many (u := [' ']) (by simp [isBlank]) rfl brace

/-- The clauses and the brace are read as they are written. -/
theorem gives_atExtends (extended implemented permitted : List TypeRef) (more : Text) :
    Gives atExtends
      (clauseText "extends" extended ++ (clauseText "implements" implemented ++
        (clauseText "permits" permitted ++ ' ' :: '{' :: more)))
      (some (clauseMatch "extends" (some .extended) extended ++
        (clauseMatch "implements" (some .implemented) implemented ++
          (clauseMatch "permits" none permitted ++ [.char ' ', .char '{'])))) := by
  have body : Follows [] (' ' :: '{' :: more) := .body more
  have permits := body.clauseText (by decide : "permits".toList ∈ clauseWords) permitted
  have implements := permits.clauseText (by decide : "implements".toList ∈ clauseWords) implemented
  refine gives_clause (some .extended) extended (by decide) implements (by decide)
    (fun x blocked => blocked.atImplements (by decide) (by decide)) ?_
  refine gives_clause (some .implemented) implemented (by decide) permits (by decide)
    (fun x blocked => blocked.atPermits (by decide)) ?_
  exact gives_clause none permitted (by decide) body (by decide) (fun x blocked => blocked.atBody)
    (gives_atBody more)

/-- Nothing but a clause or the body stands behind the parameters. -/
theorem follows_clauses (extended implemented permitted : List TypeRef) (more : Text) :
    Follows clauseWords (clauseText "extends" extended ++ (clauseText "implements" implemented ++
      (clauseText "permits" permitted ++ ' ' :: '{' :: more))) := by
  have body : Follows [] (' ' :: '{' :: more) := .body more
  exact ((body.clauseText (by decide) permitted).clauseText (by decide) implemented).clauseText
    (by decide) extended

end TypeHeader

end CodeGauge
