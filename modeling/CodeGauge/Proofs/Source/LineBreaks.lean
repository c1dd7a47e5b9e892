import CodeGauge.Source.TypeHeader
import CodeGauge.Proofs.Text

/-!
# Line breaks in type references

A type reference may run over several lines of a header. Its canonical spelling leaves out a line
break that stands right before the type arguments or behind a comma between them, and keeps every
other one (`TypeList.newline_mem_canonical_iff`).
-/

namespace CodeGauge

namespace Text

variable {c : Char} {t : Text}

/-- What is trimmed off the end of a text is white space. -/
theorem exists_trimEnd (t : Text) : ∃ gap, t = trimEnd t ++ gap ∧ ∀ c ∈ gap, isBlank c = true := by
  refine ⟨(t.reverse.takeWhile isBlank).reverse, ?_, fun c there => ?_⟩
  · rw [trimEnd, ← List.reverse_append, List.takeWhile_append_dropWhile, List.reverse_reverse]
  · exact List.mem_takeWhile_imp (List.mem_reverse.1 there)

theorem isBlank_getLast?_trimEnd (last : (trimEnd t).getLast? = some c) : isBlank c = false := by
  rw [trimEnd, List.getLast?_reverse] at last
  have visible := List.head?_dropWhile_not isBlank t.reverse
  rw [last] at visible
  simpa using visible

/-- What trimming leaves of a text starts and ends with something visible. -/
theorem visible_trim (some_char : trim t ≠ []) : Visible (trim t) := by
  constructor
  · obtain ⟨c, u, same⟩ := List.exists_cons_of_ne_nil some_char
    obtain ⟨gap, whole, -⟩ := exists_trimEnd (trimStart t)
    have first := List.head?_dropWhile_not isBlank t
    rw [← trimStart, whole, ← trim, same] at first
    exact ⟨c, u, same, by simpa using first⟩
  · obtain ⟨u, c, same⟩ := (List.eq_nil_or_concat' _).resolve_left some_char
    exact ⟨u, c, same, isBlank_getLast?_trimEnd (by rw [← trim, same, List.getLast?_concat])⟩

theorem getLast?_trimEnd_concat (t : Text) (c : Char) :
    (trimEnd (t ++ [c])).getLast? = if isBlank c then (trimEnd t).getLast? else some c := by
  cases blank : isBlank c <;> simp [trimEnd, blank]

theorem trimStart_eq_nil_iff : trimStart t = [] ↔ ∀ c ∈ t, isBlank c = true :=
  List.dropWhile_eq_nil_iff

/-- White space stays when the end of a text is trimmed if something visible follows it. -/
theorem mem_trimEnd_iff (blank : isBlank c = true) :
    c ∈ trimEnd t ↔ ∃ a b, t = a ++ c :: b ∧ trimStart b ≠ [] := by
  obtain ⟨gap, whole, blanks⟩ := exists_trimEnd t
  constructor
  · intro there
    obtain ⟨a, b, same⟩ := List.append_of_mem there
    refine ⟨a, b ++ gap, by rw [whole, same, List.append_assoc]; rfl, fun none => ?_⟩
    -- The last of what is left is visible.
    have last := List.getLast?_eq_some_getLast (List.ne_nil_of_mem there)
    have visible := isBlank_getLast?_trimEnd last
    have listed : (trimEnd t).getLast (List.ne_nil_of_mem there) ∈ c :: b := by
      simp only [same, List.getLast_append_of_ne_nil _ (List.cons_ne_nil c b)]
      exact List.getLast_mem _
    rcases List.mem_cons.1 listed with first | later
    · exact absurd (first ▸ visible) (by simp [blank])
    · exact absurd (trimStart_eq_nil_iff.1 none _ (List.mem_append_left _ later))
        (by simp [visible])
  · rintro ⟨a, b, same, visible⟩
    rw [whole] at same
    rcases List.append_eq_append_iff.1 same with ⟨as, -, later⟩ | ⟨bs, early, rest⟩
    · refine absurd (trimStart_eq_nil_iff.2 fun d there => blanks d ?_) visible
      simp [later, there]
    · cases bs with
      | nil =>
        refine absurd (trimStart_eq_nil_iff.2 fun d there => blanks d ?_) visible
        rw [← List.nil_append gap, ← rest]
        exact List.mem_cons_of_mem _ there
      | cons d bs =>
        obtain rfl := (List.cons.inj rest).1
        simp [early]

end Text

namespace TypeList

variable {c : Char} {t list : Text}

theorem mem_of_mem_dropEmptyLast {items : List Text} (there : t ∈ dropEmptyLast items) :
    t ∈ items := by
  fun_induction dropEmptyLast items with
  | case1 => exact there
  | case2 last empty => simp at there
  | case3 last some_char => exact there
  | case4 item items _ ih =>
    obtain rfl | later := List.mem_cons.1 there
    · exact List.mem_cons_self
    · exact List.mem_cons_of_mem _ (ih later)

theorem visible_of_mem_split (there : t ∈ split list) (some_char : t ≠ []) : Text.Visible t := by
  obtain ⟨piece, -, rfl⟩ := List.mem_map.1 (mem_of_mem_dropEmptyLast there)
  exact Text.visible_trim some_char

/-- A type reference with arguments, and its canonical spelling, in two parts. -/
theorem exists_arguments (brackets : '<' ∈ t) :
    ∃ base arguments, '<' ∉ base ∧ t = base ++ '<' :: arguments ∧
      canonical t = Text.trim base ++ spell ⟨false, false⟩ ('<' :: arguments) := by
  have whole := List.takeWhile_append_dropWhile (p := (· != '<')) (l := t)
  have outside : '<' ∉ t.takeWhile (· != '<') := fun there => by
    simpa using List.mem_takeWhile_imp there
  have some_rest : t.dropWhile (· != '<') ≠ [] := fun none => by
    simpa using List.dropWhile_eq_nil_iff.1 none '<' brackets
  obtain ⟨c, arguments, rest⟩ := List.exists_cons_of_ne_nil some_rest
  have first := List.head?_dropWhile_not (· != '<') t
  rw [rest] at first
  obtain rfl : c = '<' := by simpa using first
  refine ⟨_, arguments, outside, by rw [← rest, whole], ?_⟩
  rw [canonical, if_pos (by simpa using brackets), rest]

/-! ## The end -/

theorem spell_concat (visible : isBlank c = false) (st : Spelling) (t : Text) :
    spell st (t ++ [c]) = spell st t ++ [c] := by
  fun_induction spell st t with
  | case1 st => simp [spell, visible]
  | case2 st d rest quote ih => rw [List.cons_append, spell, if_pos quote, ih, List.cons_append]
  | case3 st d rest quote comma ih =>
    rw [List.cons_append, spell, if_neg quote, if_pos comma, ih, List.cons_append]
  | case4 st d rest quote comma blank ih =>
    rw [List.cons_append, spell, if_neg quote, if_neg comma, if_pos blank, ih]
  | case5 st d rest quote comma other ih =>
    rw [List.cons_append, spell, if_neg quote, if_neg comma, if_neg other, ih, List.cons_append]

/-- The canonical spelling of a type reference ends as the reference does. -/
theorem getLast?_canonical (visible : Text.Visible t) :
    ∃ c, (canonical t).getLast? = some c ∧ isBlank c = false := by
  obtain ⟨u, c, last, shown⟩ := visible.last
  refine ⟨c, ?_, shown⟩
  by_cases brackets : '<' ∈ t
  · obtain ⟨base, arguments, -, whole, canon⟩ := exists_arguments brackets
    obtain ⟨rest, d, split⟩ := (List.eq_nil_or_concat' ('<' :: arguments)).resolve_left (by simp)
    rw [whole, split, ← List.append_assoc] at last
    obtain rfl : d = c := List.singleton_injective (List.append_inj' last rfl).2
    rw [canon, split, spell_concat shown, ← List.append_assoc, List.getLast?_concat]
  · rw [canonical, if_neg (by simpa using brackets), last, List.getLast?_concat]

/-! ## Line breaks -/

/-- Whether the canonical spelling leaves out a line break between these two parts of a type
reference: it stands right before the arguments, or behind a comma between them. -/
def Absorbs (before after : Text) : Prop :=
  if '<' ∈ before then (Text.trimEnd before).getLast? = some ','
  else (Text.trimStart after).head? = some '<'

theorem exists_split_cons {d : Char} {P : Text → Text → Prop} :
    (∃ a b, c :: t = a ++ d :: b ∧ P a b) ↔ (c = d ∧ P [] t) ∨ ∃ a b, t = a ++ d :: b ∧
      P (c :: a) b := by
  constructor
  · rintro ⟨a, b, same, holds⟩
    cases a with
    | nil =>
      obtain ⟨rfl, rfl⟩ := List.cons.inj same
      exact .inl ⟨rfl, holds⟩
    | cons e a =>
      obtain ⟨rfl, rfl⟩ := List.cons.inj same
      exact .inr ⟨a, b, rfl, holds⟩
  · rintro (⟨rfl, holds⟩ | ⟨a, b, rfl, holds⟩)
    · exact ⟨[], t, rfl, holds⟩
    · exact ⟨c :: a, b, rfl, holds⟩

/-- Of the line breaks in type arguments those behind a comma are left out. What was read before
tells whether the arguments start behind one. -/
theorem newline_mem_spell_iff {read : Text} {afterComma : Bool}
    (unquoted : ∀ c ∈ t, c ≠ '"' ∧ c ≠ '\'')
    (state : afterComma = true ↔ (Text.trimEnd read).getLast? = some ',') :
    '\n' ∈ spell ⟨false, afterComma⟩ t ↔
      ∃ a b, t = a ++ '\n' :: b ∧ (Text.trimEnd (read ++ a)).getLast? ≠ some ',' := by
  induction t generalizing read afterComma with
  | nil => simp [spell]
  | cons c t ih =>
    obtain ⟨first, others⟩ := List.forall_mem_cons.1 unquoted
    have quote : ¬ (c = '"' ∨ c = '\'') := not_or.2 first
    have later {afterComma' : Bool}
        (state' : afterComma' = true ↔ (Text.trimEnd (read ++ [c])).getLast? = some ',') :
        '\n' ∈ spell ⟨false, afterComma'⟩ t ↔
          ∃ a b, t = a ++ '\n' :: b ∧ (Text.trimEnd (read ++ c :: a)).getLast? ≠ some ',' := by
      simpa using ih others state'
    rw [exists_split_cons, spell, if_neg quote, List.append_nil]
    rw [Text.getLast?_trimEnd_concat] at later
    split
    · next comma =>
      obtain ⟨rfl, -⟩ := comma
      rw [List.mem_cons, later (by simp [isBlank])]
      simp
    · next comma =>
      have other : c ≠ ',' := by simpa using comma
      split
      · next blank =>
        -- Behind a comma white space is left out, and one is behind it still.
        have behind : afterComma = true := blank.2.1
        rw [later (by rw [if_pos blank.1]; exact state)]
        simp [state.1 behind]
      · next kept =>
        by_cases blank : isBlank c = true
        · have apart : afterComma = false := by simpa [blank] using kept
          have before : (Text.trimEnd read).getLast? ≠ some ',' := fun comma => by
            simpa [apart] using state.2 comma
          rw [List.mem_cons, later (by simpa [blank] using before)]
          simp [before, eq_comm]
        · have visible : c ≠ '\n' := by
            rintro rfl
            exact blank (by decide)
          rw [List.mem_cons, later (by simp [blank, other])]
          simp [visible, visible.symm]

/-- A line break before the arguments stays unless nothing but white space is between it and
them. -/
theorem newline_mem_trim_iff {base arguments : Text}
    (visible : Text.Visible (base ++ '<' :: arguments))
    (outside : '<' ∉ base) : '\n' ∈ Text.trim base ↔
      ∃ a b, base = a ++ '\n' :: b ∧ (Text.trimStart (b ++ '<' :: arguments)).head? ≠ some '<' := by
  have start : Text.trimStart base = base := by
    obtain ⟨c, u, same, first⟩ := visible.first
    cases base with
    | nil => rfl
    | cons d base =>
      obtain ⟨rfl, -⟩ := List.cons.inj same
      simp [Text.trimStart, first]
  rw [Text.trim, start, Text.mem_trimEnd_iff (by decide)]
  refine exists_congr fun a => exists_congr fun b => and_congr_right fun same => ?_
  constructor
  · intro some_char bracket
    rw [Text.trimStart_append some_char, List.head?_append_of_ne_nil _ some_char] at bracket
    have there : '<' ∈ b := (List.dropWhile_sublist _).subset (List.mem_of_mem_head? bracket)
    exact outside (by simp [same, there])
  · intro other none
    have blanks := Text.trimStart_eq_nil_iff.1 none
    refine other ?_
    rw [Text.trimStart, List.dropWhile_append_of_pos blanks]
    rfl

/-- The canonical spelling keeps the line breaks of a type reference that it does not absorb. -/
theorem newline_mem_canonical_iff (visible : Text.Visible t)
    (unquoted : ∀ c ∈ t, c ≠ '"' ∧ c ≠ '\'') :
    '\n' ∈ canonical t ↔ ∃ a b, t = a ++ '\n' :: b ∧ ¬ Absorbs a b := by
  by_cases brackets : '<' ∈ t
  · obtain ⟨base, arguments, outside, rfl, canon⟩ := exists_arguments brackets
    have inside : ∀ c ∈ arguments, c ≠ '"' ∧ c ≠ '\'' := fun c there => unquoted c (by simp [there])
    have opened : spell ⟨false, false⟩ ('<' :: arguments) =
        '<' :: spell ⟨false, false⟩ arguments := by
      simp [spell]
    have state : false = true ↔ (Text.trimEnd (base ++ ['<'])).getLast? = some ',' := by
      simp [Text.getLast?_trimEnd_concat, isBlank]
    rw [canon, opened, List.mem_append, newline_mem_trim_iff visible outside, List.mem_cons,
      newline_mem_spell_iff inside state]
    constructor
    · rintro (⟨a, b, rfl, other⟩ | newline | ⟨a, b, rfl, other⟩)
      · refine ⟨a, b ++ '<' :: arguments, by simp, ?_⟩
        rwa [Absorbs, if_neg fun there => outside (List.mem_append_left _ there)]
      · exact absurd newline (by decide)
      · refine ⟨base ++ ['<'] ++ a, b, by simp, ?_⟩
        rwa [Absorbs, if_pos (by simp)]
    · rintro ⟨a, b, same, kept⟩
      rcases List.append_eq_append_iff.1 same with ⟨behind, rfl, rest⟩ | ⟨gap, rfl, rest⟩
      · cases behind with
        | nil => exact absurd (List.cons.inj rest).1 (by decide)
        | cons c behind =>
          obtain ⟨rfl, rfl⟩ := List.cons.inj rest
          rw [Absorbs, if_pos (by simp)] at kept
          exact .inr (.inr ⟨behind, b, rfl, by simpa using kept⟩)
      · cases gap with
        | nil => exact absurd (List.cons.inj rest).1 (by decide)
        | cons c gap =>
          obtain ⟨rfl, rfl⟩ := List.cons.inj rest
          rw [Absorbs, if_neg fun there => outside (List.mem_append_left _ there)] at kept
          exact .inl ⟨a, gap, rfl, kept⟩
  · -- Without arguments a reference is spelled as it is.
    rw [canonical, if_neg (by simpa using brackets)]
    constructor
    · intro there
      obtain ⟨a, b, rfl⟩ := List.append_of_mem there
      refine ⟨a, b, rfl, fun absorbed => brackets ?_⟩
      rw [Absorbs, if_neg fun there => brackets (List.mem_append_left _ there)] at absorbed
      have there := (List.dropWhile_sublist _).subset (List.mem_of_mem_head? absorbed)
      simp [there]
    · rintro ⟨a, b, rfl, -⟩
      simp

end TypeList

end CodeGauge
