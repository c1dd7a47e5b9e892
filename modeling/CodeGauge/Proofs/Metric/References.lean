import CodeGauge.Metric.Afferent
import CodeGauge.Metric.Instability
import CodeGauge.Proofs.Source.DeclaredNames

/-!
# References to a class

Two metrics count the siblings that refer to a class, each by shapes of its own. The shapes of the
afferent coupling take the name of the class only where it stands alone: whatever comes before the
name ends a word (`Pattern.OpensFor`), and whatever comes after it starts none
(`Pattern.ClosesFor`). So a sibling in which the name is only part of longer words is never counted
(`Afferent.longer_words_do_not_couple`).

The shapes of the instability are meant to be narrower, and all but two of them are. `Strays`
describes what the other two take beyond a reference, and a sibling counts as incoming without being
a reference exactly if it strays (`Instability.incoming_alone_iff_strays`).
-/

namespace CodeGauge

open Pattern

/-- A name stands alone somewhere in a text: there is no word character next to it. -/
def Text.StandsAlone (name t : Text) : Prop :=
  ∃ before after, t = before ++ (name ++ after) ∧ before.getLast?.any isWordChar = false ∧
    after.head?.any isWordChar = false

/-- A word: some word characters and nothing else. -/
structure Text.IsWord (t : Text) : Prop where
  some_char : t ≠ []
  inWord : ∀ c ∈ t, isWordChar c = true

/-! ## What stands around a name -/

namespace Pattern

/-- When a name follows where a pattern ends, no word character stands before the name. -/
def OpensFor (name : Text) (p : Pattern) : Prop :=
  ∀ s m e : Spot, p.Leads s m → m.Takes name e → m.ClearBefore

/-- When a pattern follows a name, no word character stands after the name. -/
def ClosesFor (name : Text) (p : Pattern) : Prop :=
  ∀ s m e : Spot, s.Takes name m → p.Leads m e → m.ClearAfter

variable {name : Text} {p q : Pattern} {s e : Spot}

theorem opensFor_append (h : q.OpensFor name) : (p ++ q).OpensFor name := by
  intro s m e leads takes
  obtain ⟨n, -, second⟩ := leads_append.1 leads
  exact h n m e second takes

theorem closesFor_append (h : p.ClosesFor name) : (p ++ q).ClosesFor name := by
  intro s m e takes leads
  obtain ⟨n, first, -⟩ := leads_append.1 leads
  exact h s m n takes first

theorem opensFor_wordEdge (word : name.IsWord) : wordEdge.OpensFor name := by
  intro s m e leads takes
  obtain ⟨edge, rfl⟩ := leads_wordEdge.1 leads
  obtain ⟨c, rest, rfl⟩ := List.exists_cons_of_ne_nil word.some_char
  exact (takes.onWordEdge_iff rfl (word.inWord c List.mem_cons_self)).1 edge

theorem closesFor_wordEdge (word : name.IsWord) : wordEdge.ClosesFor name := by
  intro s m e takes leads
  obtain ⟨edge, rfl⟩ := leads_wordEdge.1 leads
  have last := List.getLast?_eq_some_getLast word.some_char
  exact (takes.onWordEdge_end_iff last (word.inWord _ (List.getLast_mem _))).1 edge

theorem opensFor_char {c : Char} (other : isWordChar c = false) : (char c).OpensFor name := by
  intro s m e leads takes
  exact (leads_char.1 leads).clearBefore rfl other

theorem closesFor_char {c : Char} (other : isWordChar c = false) : (char c).ClosesFor name := by
  intro s m e takes leads
  exact (leads_char.1 leads).clearAfter rfl other

theorem closesFor_literal {w : Text} {c : Char} (first : w.head? = some c)
    (other : isWordChar c = false) :
    (literal w).ClosesFor name := by
  intro s m e takes leads
  exact (leads_literal.1 leads).clearAfter first other

theorem opensFor_blanks1 : blanks1.OpensFor name := by
  intro s m e leads takes
  obtain ⟨u, some_blank, blank, gap⟩ := leads_many1.1 leads
  apply gap.clearBefore (List.getLast?_eq_some_getLast some_blank)
  exact Text.isWordChar_of_isBlank (blank _ (List.getLast_mem some_blank))

theorem closesFor_blanks1 : blanks1.ClosesFor name := by
  intro s m e takes leads
  obtain ⟨u, some_blank, blank, gap⟩ := leads_many1.1 leads
  apply gap.clearAfter (List.head?_eq_some_head some_blank)
  exact Text.isWordChar_of_isBlank (blank _ (List.head_mem some_blank))

/-- A gap that may be empty changes nothing. -/
theorem opensFor_append_blanks (h : p.OpensFor name) : (p ++ blanks).OpensFor name := by
  intro s m e leads takes
  obtain ⟨n, first, second⟩ := leads_append.1 leads
  obtain ⟨u, blank, gap⟩ := leads_many.1 second
  by_cases none : u = []
  · subst none
    obtain rfl := gap.eq_of_nil
    exact h s m e first takes
  · exact opensFor_blanks1 n m e (leads_many1.2 ⟨u, none, blank, gap⟩) takes

theorem closesFor_blanks_append (h : q.ClosesFor name) : (blanks ++ q).ClosesFor name := by
  intro s m e takes leads
  obtain ⟨n, first, second⟩ := leads_append.1 leads
  obtain ⟨u, blank, gap⟩ := leads_many.1 first
  by_cases none : u = []
  · subst none
    obtain rfl := gap.eq_of_nil
    exact h s n e takes second
  · exact closesFor_blanks1 s m n takes (leads_many1.2 ⟨u, none, blank, gap⟩)

theorem standsAlone_of_leads (opens : p.OpensFor name) (closes : q.ClosesFor name)
    (h : (p ++ literal name ++ q).Leads s e) : name.StandsAlone s.whole := by
  simp only [leads_append, leads_literal] at h
  obtain ⟨n, ⟨m, first, takes⟩, second⟩ := h
  have clearBefore : m.ClearBefore := opens s m n first takes
  have clearAfter : n.ClearAfter := closes m n e takes second
  obtain ⟨u, -, lead⟩ := first.takes
  refine ⟨m.before.reverse, n.after, ?_, ?_, clearAfter⟩
  · rw [← lead.whole_eq, Spot.whole, takes.1]
  · rwa [List.getLast?_reverse]

/-- A word stands alone where it is found between two edges of words. -/
theorem standsAlone_iff_occursIn (word : name.IsWord) {t : Text} :
    name.StandsAlone t ↔ (wordEdge ++ literal name ++ wordEdge).occursIn t = true := by
  rw [occursIn_iff_leads]
  constructor
  · rintro ⟨before, after, rfl, left, right⟩
    obtain ⟨s, e, takes, start, finish, whole⟩ := Spot.exists_takes before name after
    have clear : s.ClearBefore := by rwa [Spot.ClearBefore, start, List.head?_reverse]
    have clear' : e.ClearAfter := by rwa [Spot.ClearAfter, finish]
    have first := List.head?_eq_some_head word.some_char
    have last := List.getLast?_eq_some_getLast word.some_char
    have edge := (takes.onWordEdge_iff first (word.inWord _ (List.head_mem _))).2 clear
    have edge' := (takes.onWordEdge_end_iff last (word.inWord _ (List.getLast_mem _))).2 clear'
    refine ⟨s, e, whole, ?_⟩
    simp only [leads_append, leads_wordEdge, leads_literal]
    exact ⟨e, ⟨s, ⟨edge, rfl⟩, takes⟩, edge', rfl⟩
  · rintro ⟨s, e, rfl, leads⟩
    exact standsAlone_of_leads (opensFor_wordEdge word) (closesFor_wordEdge word) leads

end Pattern

/-! ## The afferent coupling -/

namespace Afferent

variable {source className name : Text} {s e : Spot}

/-- Wherever a word is referred to, it stands alone. -/
theorem standsAlone_of_reference (word : name.IsWord) (h : (reference name).Leads s e) :
    name.StandsAlone s.whole := by
  have edge : wordEdge.OpensFor name := opensFor_wordEdge word
  have edge' : wordEdge.ClosesFor name := closesFor_wordEdge word
  simp only [reference, leads_oneOf, List.mem_cons, List.not_mem_nil, or_false] at h
  obtain ⟨shape, listed, leads⟩ := h
  rcases listed with rfl | rfl | rfl | rfl | rfl | rfl | rfl | rfl | rfl
  · -- a typed name
    exact standsAlone_of_leads edge (closesFor_append closesFor_blanks1) (leads_assoc.1 leads)
  · -- a new object
    refine standsAlone_of_leads (opensFor_append opensFor_blanks1) ?_ (leads_assoc.1 leads)
    exact closesFor_blanks_append (closesFor_char (by decide))
  · -- a member
    exact standsAlone_of_leads edge (closesFor_char (by decide)) leads
  · -- a class that is extended
    exact standsAlone_of_leads (opensFor_append opensFor_blanks1) edge' leads
  · -- an interface that is implemented
    exact standsAlone_of_leads (opensFor_append edge) edge' leads
  · -- a parameter
    exact standsAlone_of_leads (opensFor_append_blanks (opensFor_char (by decide)))
      closesFor_blanks1 leads
  · -- a type argument
    have around := leads_assoc.1 (leads_assoc.1 leads)
    exact standsAlone_of_leads (opensFor_append edge) (closesFor_append edge') around
  · -- an array
    exact standsAlone_of_leads edge (closesFor_literal (c := '[') (by decide) (by decide)) leads
  · -- an import
    refine standsAlone_of_leads (opensFor_append (opensFor_char (by decide))) ?_
      (leads_assoc.1 leads)
    exact closesFor_blanks_append (closesFor_char (by decide))

theorem coupling_eq
    (declared : TypeHeader.primary? (TypeHeader.declarations (Source.stripped source))
      [.classKind] = some className) (siblings : List Text) :
    coupling source siblings = siblings.countP (refersTo className) := by
  rw [coupling, declared]

/-- For a class whose name has no dollar sign, every sibling that counts holds the name where it
stands alone. A sibling in which it is only part of longer words counts in no list of siblings. -/
theorem longer_words_do_not_couple
    (declared : TypeHeader.primary? (TypeHeader.declarations (Source.stripped source))
      [.classKind] = some className) (plain : '$' ∉ className) :
    (∀ siblings, coupling source siblings = siblings.countP (refersTo className)) ∧
      (∀ sibling, refersTo className sibling = true →
        className.StandsAlone (Source.stripped sibling)) ∧
      ∀ sibling, ¬ className.StandsAlone (Source.stripped sibling) →
        ∀ before after, coupling source (before ++ sibling :: after) =
          coupling source (before ++ after) := by
  have counted := coupling_eq declared
  have alone (sibling : Text) (refers : refersTo className sibling = true) :
      className.StandsAlone (Source.stripped sibling) := by
    obtain ⟨s, e, place, leads⟩ := occursIn_iff_leads.1 refers
    have named := TypeHeader.primary?_mem_language declared
    have word : className.IsWord := ⟨Java.ne_nil_of_mem_name named, fun c there =>
      Java.isWordChar_of_mem_name named there fun dollar => plain (dollar ▸ there)⟩
    exact place ▸ standsAlone_of_reference word leads
  refine ⟨counted, alone, fun sibling part before after => ?_⟩
  have unrelated : refersTo className sibling = false :=
    Bool.eq_false_iff.2 fun refers => part (alone sibling refers)
  rw [counted, counted, List.countP_append, List.countP_append, List.countP_cons, unrelated]
  rfl

/-- Longer names, a comment and a literal do not couple; a supertype does, and there the name stands
alone. -/
theorem longer_names_are_not_counted :
    let source := "class Target \x7b\n\x7d\n".toList
    let other :=
      "class X \x7b\n TargetList a; // new Target()\n MyTarget b = of(\"Target t\");\n\x7d\n".toList
    let sibling := "class Y extends Target \x7b\n\x7d\n".toList
    ¬ Text.StandsAlone "Target".toList (Source.stripped other) ∧
      coupling source [other] = coupling source [] ∧
      Text.StandsAlone "Target".toList (Source.stripped sibling) := by
  intro source other sibling
  have declared :
      TypeHeader.primary? (TypeHeader.declarations (Source.stripped source)) [.classKind] =
        some "Target".toList := by decide +kernel
  obtain ⟨-, alone, unrelated⟩ := longer_words_do_not_couple declared (by decide)
  have word : Text.IsWord "Target".toList := ⟨by decide, List.all_eq_true.1 (by decide)⟩
  have part : ¬ Text.StandsAlone "Target".toList (Source.stripped other) := by
    rw [standsAlone_iff_occursIn word]
    decide +kernel
  exact ⟨part, unrelated other part [] [], alone sibling (by decide +kernel)⟩

end Afferent

/-! ## The instability -/

/-- Between two texts there is no edge of a word: the characters that meet there are both word
characters, or neither of them is. -/
def Text.Seamless (before after : Text) : Prop :=
  before.getLast?.any isWordChar = after.head?.any isWordChar

theorem Spot.Takes.onWordEdge_iff_not_seamless {s e : Spot} {t : Text} (h : s.Takes t e)
    (some_char : t ≠ []) : e.onWordEdge = true ↔ ¬ t.Seamless e.after := by
  have last := List.getLast?_eq_some_getLast some_char
  simp [Spot.onWordEdge, Text.Seamless, h.head?_before last, last]

/-- What a text can hold that counts as incoming without referring to a type. -/
inductive Strays (name : Text) : Text → Prop where
  /-- Behind `implements`, on the same line, the name comes after a brace, or an end of it is no
  edge of a word: it is part of a longer word, or a dollar sign stands there. -/
  | clause {a gap rest b : Text} (start : a.getLast?.any isWordChar = false) (some_blank : gap ≠ [])
      (blank : ∀ c ∈ gap, isBlank c = true) (line : '\n' ∉ rest)
      (loose : '{' ∈ rest ∨ Text.Seamless (gap ++ rest) (name ++ b) ∨ name.Seamless b) :
      Strays name (a ++ ("implements".toList ++ (gap ++ (rest ++ (name ++ b)))))
  /-- A name that starts or ends with a dollar sign is the only type argument. -/
  | argument {a gap gap' b : Text} (blank : ∀ c ∈ gap, isBlank c = true)
      (blank' : ∀ c ∈ gap', isBlank c = true)
      (dollar : name.head? = some '$' ∨ name.getLast? = some '$') :
      Strays name (a ++ '<' :: (gap ++ (name ++ (gap' ++ '>' :: b))))

namespace Instability

variable {source className name : Text} {s e : Spot}

/-- The share of outgoing dependencies among all dependencies. -/
def shareOf (outgoing incoming : Nat) : Share :=
  if outgoing + incoming = 0 then .zero else ⟨outgoing, outgoing + incoming⟩

/-- The number of siblings that count as incoming for the type that the instability is about. -/
def incomingCount (source : Text) (siblings : List Text) : Nat :=
  match TypeHeader.primary? (TypeHeader.declarations (Source.stripped source))
    [.classKind, .interfaceKind] with
  | none => 0
  | some name => siblings.countP (refersTo name)

theorem primary?_of_class {decls : List TypeDecl}
    (declared : TypeHeader.primary? decls [.classKind] = some name) :
    TypeHeader.primary? decls [.classKind, .interfaceKind] = some name := by
  have first : (decls.find? (·.kind = .classKind)).map (·.name) = some name := by
    simpa [TypeHeader.primary?] using declared
  rw [TypeHeader.primary?, List.findSome?_cons, first]

/-- An `implements` with the name further on in the line is a reference, or it strays. -/
theorem reference_or_strays_of_clause (some_char : name ≠ [])
    (h : (wordEdge ++ word "implements" ++ blanks1 ++ onLine ++ literal name).Leads s e) :
    (Afferent.reference name).occursIn s.whole = true ∨ Strays name s.whole := by
  obtain ⟨m, through, named⟩ := leads_append.1 h
  obtain ⟨n, lead, onward⟩ := leads_append.1 through
  obtain ⟨rest, line, along⟩ := leads_many.1 onward
  have takes : m.Takes name e := leads_literal.1 named
  obtain ⟨k, start, gaps⟩ := leads_append.1 lead
  obtain ⟨gap, some_blank, blank, between⟩ := leads_many1.1 gaps
  by_cases loose : '{' ∈ rest ∨ Text.Seamless (gap ++ rest) (name ++ e.after) ∨
    name.Seamless e.after
  · right
    obtain ⟨s', edges, letters⟩ := leads_append.1 start
    obtain ⟨edge, rfl⟩ := leads_wordEdge.1 edges
    have keyword : s'.Takes "implements".toList k := leads_literal.1 letters
    have clear : s'.ClearBefore := (keyword.onWordEdge_iff (c := 'i') rfl (by decide)).1 edge
    have split : s'.whole =
        s'.before.reverse ++ ("implements".toList ++ (gap ++ (rest ++ (name ++ e.after)))) := by
      rw [Spot.whole, keyword.1, between.1, along.1, takes.1]
    rw [split]
    apply Strays.clause _ some_blank blank _ loose
    · rwa [List.getLast?_reverse]
    · exact fun newline => absurd (line _ newline) (by decide)
  · left
    simp only [not_or] at loose
    obtain ⟨noBrace, left, right⟩ := loose
    have inside : (many (· != '{')).Leads n m := by
      refine leads_many.2 ⟨rest, fun c there => ?_, along⟩
      simpa using fun brace : c = '{' => noBrace (brace ▸ there)
    have edge : wordEdge.Leads m m := by
      refine leads_wordEdge.2 ⟨?_, rfl⟩
      rw [(between.trans along).onWordEdge_iff_not_seamless (by simp [some_blank]), takes.1]
      exact left
    have edge' : wordEdge.Leads e e :=
      leads_wordEdge.2 ⟨(takes.onWordEdge_iff_not_seamless some_char).2 right, rfl⟩
    have reference : (wordEdge ++ word "implements" ++ blanks1 ++ many (· != '{') ++ wordEdge ++
        literal name ++ wordEdge).Leads s e := by
      simp only [leads_append] at lead ⊢
      exact ⟨e, ⟨m, ⟨m, ⟨n, lead, inside⟩, edge⟩, named⟩, edge'⟩
    exact oneOf_occursIn (by simp) reference

/-- A type that is the only type argument is referred to, or it strays. -/
theorem reference_or_strays_of_argument (named : name ∈ Java.name.language)
    (h : (char '<' ++ blanks ++ literal name ++ blanks ++ char '>').Leads s e) :
    (Afferent.reference name).occursIn s.whole = true ∨ Strays name s.whole := by
  have some_char := Java.ne_nil_of_mem_name named
  obtain ⟨n, through, closing⟩ := leads_append.1 (leads_assoc.1 h)
  obtain ⟨m, opening, letters⟩ := leads_append.1 through
  have takes : m.Takes name n := leads_literal.1 letters
  obtain ⟨k, bracket, gaps⟩ := leads_append.1 opening
  obtain ⟨l, gaps', bracket'⟩ := leads_append.1 closing
  obtain ⟨gap, blank, between⟩ := leads_many.1 gaps
  obtain ⟨gap', blank', between'⟩ := leads_many.1 gaps'
  by_cases dollar : name.head? = some '$' ∨ name.getLast? = some '$'
  · right
    have split :
        s.whole = s.before.reverse ++ '<' :: (gap ++ (name ++ (gap' ++ '>' :: e.after))) := by
      rw [Spot.whole, (leads_char.1 bracket).1, between.1, takes.1, between'.1,
        (leads_char.1 bracket').1]
      rfl
    rw [split]
    exact .argument blank blank' dollar
  · left
    rw [not_or] at dollar
    -- The ends of the name are word characters, and what is next to them is not.
    have first := List.head?_eq_some_head some_char
    have last := List.getLast?_eq_some_getLast some_char
    have inWord : isWordChar (name.head some_char) = true :=
      Java.isWordChar_of_mem_name named (List.head_mem some_char) fun same =>
        dollar.1 (same ▸ first)
    have inWord' : isWordChar (name.getLast some_char) = true :=
      Java.isWordChar_of_mem_name named (List.getLast_mem some_char) fun same =>
        dollar.2 (same ▸ last)
    have clear : m.ClearBefore :=
      opensFor_append_blanks (opensFor_char (by decide)) s m n opening takes
    have clear' : n.ClearAfter :=
      closesFor_blanks_append (closesFor_char (by decide)) m n e takes closing
    have edge : wordEdge.Leads m m :=
      leads_wordEdge.2 ⟨(takes.onWordEdge_iff first inWord).2 clear, rfl⟩
    have edge' : wordEdge.Leads n n :=
      leads_wordEdge.2 ⟨(takes.onWordEdge_end_iff last inWord').2 clear', rfl⟩
    have noBracket {u : Text} (blank : ∀ c ∈ u, isBlank c = true) : ∀ c ∈ u, (c != '>') = true := by
      intro c there
      have visible : isBlank '>' = false := by decide
      simpa using fun same : c = '>' => absurd (blank c there) (by simp [same, visible])
    have reference : (char '<' ++ many (· != '>') ++ wordEdge ++ literal name ++ wordEdge ++
        many (· != '>') ++ char '>').Leads s e := by
      simp only [leads_append, leads_many]
      exact ⟨l, ⟨n, ⟨n, ⟨m, ⟨m, ⟨k, bracket, gap, noBracket blank, between⟩, edge⟩, letters⟩,
        edge'⟩, gap', noBracket blank', between'⟩, bracket'⟩
    exact oneOf_occursIn (by simp) reference

/-- What counts as incoming is a reference, or it strays. -/
theorem reference_or_strays (named : name ∈ Java.name.language) (h : (incoming name).Leads s e) :
    (Afferent.reference name).occursIn s.whole = true ∨ Strays name s.whole := by
  simp only [incoming, leads_oneOf, List.mem_cons, List.not_mem_nil, or_false] at h
  obtain ⟨shape, listed, leads⟩ := h
  rcases listed with rfl | rfl | rfl | rfl | rfl | rfl | rfl | rfl
  · -- a typed name
    exact .inl (oneOf_occursIn (by simp) leads)
  · -- a new object
    exact .inl (oneOf_occursIn (by simp) leads)
  · -- a member: its name is not looked at
    obtain ⟨m, leads, -⟩ := leads_append.1 leads
    exact .inl (oneOf_occursIn (by simp) leads)
  · -- a class that is extended
    exact .inl (oneOf_occursIn (by simp) leads)
  · -- an interface that is implemented
    exact reference_or_strays_of_clause (Java.ne_nil_of_mem_name named) leads
  · -- a parameter: its name and what closes the list are not looked at
    obtain ⟨m, leads, -⟩ := leads_append.1 (leads_assoc.1 (leads_assoc.1 leads))
    exact .inl (oneOf_occursIn (by simp) leads)
  · -- a type argument
    exact reference_or_strays_of_argument named leads
  · -- an array
    exact .inl (oneOf_occursIn (by simp) leads)

/-- What strays counts as incoming. -/
theorem incoming_of_strays {t : Text} (h : Strays name t) : (incoming name).occursIn t = true := by
  cases h with
  | @clause a gap rest b start some_blank blank line loose =>
    obtain ⟨s, e, takes, before, -, whole⟩ :=
      Spot.exists_takes a ("implements".toList ++ (gap ++ (rest ++ name))) b
    obtain ⟨k, keyword, further⟩ := takes.split
    obtain ⟨n, between, further⟩ := further.split
    obtain ⟨m, along, letters⟩ := further.split
    have clear : s.ClearBefore := by rwa [Spot.ClearBefore, before, List.head?_reverse]
    have edge : s.onWordEdge = true := (keyword.onWordEdge_iff (c := 'i') rfl (by decide)).2 clear
    have onward : ∀ c ∈ rest, (c != '\n') = true := by
      intro c there
      simpa using fun newline : c = '\n' => line (newline ▸ there)
    have leads :
        (wordEdge ++ word "implements" ++ blanks1 ++ onLine ++ literal name).Leads s e := by
      simp only [word, blanks1, onLine, leads_append, leads_wordEdge, leads_literal,
        leads_many1, leads_many]
      exact ⟨m, ⟨n, ⟨k, ⟨s, ⟨edge, rfl⟩, keyword⟩, gap, some_blank, blank, between⟩, rest, onward,
        along⟩, letters⟩
    have occurs : (incoming name).occursIn s.whole = true := oneOf_occursIn (by simp) leads
    simpa [whole] using occurs
  | @argument a gap gap' b blank blank' dollar =>
    obtain ⟨s, e, takes, -, -, whole⟩ :=
      Spot.exists_takes a (['<'] ++ (gap ++ (name ++ (gap' ++ ['>'])))) b
    obtain ⟨k, bracket, further⟩ := takes.split
    obtain ⟨m, between, further⟩ := further.split
    obtain ⟨n, letters, further⟩ := further.split
    obtain ⟨l, between', bracket'⟩ := further.split
    have leads : (char '<' ++ blanks ++ literal name ++ blanks ++ char '>').Leads s e := by
      simp only [blanks, leads_append, leads_char, leads_literal, leads_many]
      exact ⟨l, ⟨n, ⟨m, ⟨k, bracket, gap, blank, between⟩, letters⟩, gap', blank', between'⟩,
        bracket'⟩
    have occurs : (incoming name).occursIn s.whole = true := oneOf_occursIn (by simp) leads
    simpa [whole] using occurs

/-- A sibling counts as incoming without being a reference exactly if it strays. So the incoming
siblings are at most as many as the references, as long as every sibling that strays is a reference
too. -/
theorem incoming_alone_iff_strays
    (declared : TypeHeader.primary? (TypeHeader.declarations (Source.stripped source))
      [.classKind] = some className) :
    (∀ siblings, ofSources source siblings =
      some (shareOf (outgoingCount (Source.stripped source) className)
        (incomingCount source siblings))) ∧
    (∀ siblings, incomingCount source siblings = siblings.countP (refersTo className)) ∧
    (∀ sibling, Afferent.refersTo className sibling = false →
      (refersTo className sibling = true ↔ Strays className (Source.stripped sibling))) ∧
    ∀ siblings, (∀ sibling ∈ siblings, Strays className (Source.stripped sibling) →
        Afferent.refersTo className sibling = true) →
      incomingCount source siblings ≤ Afferent.coupling source siblings := by
  have named := TypeHeader.primary?_mem_language declared
  have anchor := primary?_of_class declared
  have counted (siblings : List Text) :
      incomingCount source siblings = siblings.countP (refersTo className) := by
    rw [incomingCount, anchor]
  have either (sibling : Text) (incoming : refersTo className sibling = true) :
      Afferent.refersTo className sibling = true ∨ Strays className (Source.stripped sibling) := by
    obtain ⟨s, e, place, leads⟩ := occursIn_iff_leads.1 incoming
    have either := reference_or_strays named leads
    rwa [place] at either
  refine ⟨fun siblings => ?_, counted, fun sibling alone => ?_, fun siblings covered => ?_⟩
  · rw [counted, ofSources, anchor]
    rfl
  · constructor
    · intro incoming
      exact (either sibling incoming).resolve_left (by simp [alone])
    · exact incoming_of_strays
  · rw [counted, Afferent.coupling_eq declared]
    apply List.countP_mono_left
    intro sibling there incoming
    exact (either sibling incoming).elim id (covered sibling there)

/-- An interface with a longer name strays, and with a field of the class beside it no sibling too
many counts. -/
theorem longer_interface_name_strays :
    let source := "class Target extends Base \x7b\n\x7d\n".toList
    let sibling := "class A implements TargetList \x7b\n\x7d\n".toList
    let other := "class B implements TargetList \x7b\n Target t;\n\x7d\n".toList
    Strays "Target".toList (Source.stripped sibling) ∧
      incomingCount source [other] ≤ Afferent.coupling source [other] := by
  intro source sibling other
  have declared :
      TypeHeader.primary? (TypeHeader.declarations (Source.stripped source)) [.classKind] =
        some "Target".toList := by decide +kernel
  obtain ⟨-, -, alone, covered⟩ := incoming_alone_iff_strays declared
  constructor
  · exact (alone sibling (by decide +kernel)).1 (by decide +kernel)
  · refine covered [other] fun sibling there strays => ?_
    obtain rfl := List.mem_singleton.1 there
    decide +kernel

/-- A class that implements an interface with a longer name counts as incoming, and is no
reference. -/
theorem longer_interface_name_counts_as_incoming :
    let source := "class Target extends Base \x7b\n\x7d\n".toList
    let sibling := "class A implements TargetList \x7b\n\x7d\n".toList
    incomingCount source [sibling] = 1 ∧ Afferent.coupling source [sibling] = 0 := by
  decide +kernel

end Instability

end CodeGauge
