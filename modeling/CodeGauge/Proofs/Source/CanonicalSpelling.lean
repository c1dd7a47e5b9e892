import Mathlib.Data.List.Induction
import CodeGauge.Proofs.Source.LineBreaks
import CodeGauge.Proofs.Source.Lines

/-!
# Canonical spellings

Type arguments are spelled character by character. A character that is left out does not change
where the spelling stands (`Spelling.next_of_not_keeps`), so what is kept is kept again
(`spell_spell`), and the canonical spelling is a normal form (`canonical_canonical`) with the same
base (`base_canonical`). White space behind a comma makes no difference to it exactly if the comma
stands outside quotes, where each quotation mark since the first bracket opens or closes a literal
(`canonical_gap_iff`).
-/

namespace CodeGauge

namespace Text

variable {c : Char} {t : Text}

theorem mem_of_mem_trim (there : c ∈ trim t) : c ∈ t := by
  obtain ⟨gap, whole, -⟩ := exists_trimEnd (trimStart t)
  have inside : c ∈ trimStart t := by
    rw [whole]
    exact List.mem_append_left _ there
  exact (List.dropWhile_sublist _).subset inside

theorem trim_trim (t : Text) : trim (trim t) = trim t := by
  by_cases empty : trim t = []
  · rw [empty]
    rfl
  · exact (visible_trim empty).trim_eq

end Text

namespace TypeList

open Source (isQuote)

variable {st : Spelling} {c : Char} {t : Text}

/-! ## One character after the other -/

namespace Spelling

/-- Whether a character is kept. -/
def keeps (st : Spelling) (c : Char) : Bool := !(isBlank c && st.afterComma && !st.quoted)

/-- Where the spelling stands behind a character. -/
def next (st : Spelling) (c : Char) : Spelling :=
  if isQuote c then { st with quoted := !st.quoted }
  else if c = ',' ∧ !st.quoted then { st with afterComma := true }
  else if st.keeps c then { st with afterComma := false }
  else st

/-- Where the spelling stands behind a text. -/
def after (st : Spelling) (t : Text) : Spelling := t.foldl next st

/-- White space is neither a quotation mark nor a comma. -/
theorem next_of_isBlank (blank : isBlank c = true) :
    st.next c = if st.keeps c then { st with afterComma := false } else st := by
  have quote : isQuote c = false := by
    by_contra mark
    have either : c = '"' ∨ c = '\'' := by simpa [isQuote, or_iff_not_imp_left] using mark
    rcases either with rfl | rfl <;> contradiction
  have comma : c ≠ ',' := by
    rintro rfl
    contradiction
  simp [next, quote, comma]

/-- A character that is left out does not change where the spelling stands. -/
theorem next_of_not_keeps (dropped : st.keeps c = false) : st.next c = st := by
  have blank : isBlank c = true := by simp_all [keeps]
  rw [next_of_isBlank blank, dropped]
  rfl

theorem quoted_next (st : Spelling) (c : Char) : (st.next c).quoted = (st.quoted != isQuote c) := by
  unfold next
  cases isQuote c with
  | true => simp
  | false =>
    simp only [Bool.false_eq_true, if_false, Bool.bne_false]
    split_ifs <;> rfl

/-- The spelling stands between quotes behind an odd number of quotation marks. -/
theorem quoted_after (t : Text) :
    (after ⟨false, false⟩ t).quoted = decide (t.countP isQuote % 2 = 1) := by
  induction t using List.reverseRecOn with
  | nil => rfl
  | append_singleton t c ih =>
    have step : after ⟨false, false⟩ (t ++ [c]) = (after ⟨false, false⟩ t).next c := by simp [after]
    rw [step, quoted_next, ih, List.countP_append]
    cases mark : isQuote c with
    | true =>
      simp only [List.countP_singleton, mark, if_true]
      by_cases odd : t.countP isQuote % 2 = 1 <;> simp [odd] <;> omega
    | false => simp [mark]

end Spelling

theorem spell_cons (st : Spelling) (c : Char) (t : Text) :
    spell st (c :: t) = (if st.keeps c then [c] else []) ++ spell (st.next c) t := by
  rw [spell]
  by_cases quote : c = '"' ∨ c = '\''
  · have mark : isQuote c = true := by simpa [isQuote] using quote
    have kept : st.keeps c = true := by rcases quote with rfl | rfl <;> rfl
    simp [Spelling.next, quote, mark, kept]
  · have other : isQuote c = false := by simpa [isQuote] using quote
    by_cases comma : c = ',' ∧ (!st.quoted) = true
    · have kept : st.keeps c = true := by rw [comma.1]; rfl
      simp only [if_neg quote, if_pos comma, Spelling.next, other, kept, Bool.false_eq_true,
        if_false, if_true, List.singleton_append]
    · by_cases dropped : isBlank c = true ∧ st.afterComma = true ∧ (!st.quoted) = true
      · have gone : st.keeps c = false := by simp_all [Spelling.keeps]
        rw [if_neg quote, if_neg comma, if_pos dropped, Spelling.next_of_not_keeps gone, gone]
        rfl
      · have kept : st.keeps c = true := by
          simpa [Spelling.keeps, or_iff_not_imp_left] using dropped
        simp only [if_neg quote, if_neg comma, if_neg dropped, Spelling.next, other, kept,
          Bool.false_eq_true, if_false, if_true, List.singleton_append]

theorem spell_kept (kept : st.keeps c = true) (t : Text) :
    spell st (c :: t) = c :: spell (st.next c) t := by
  rw [spell_cons, if_pos kept, List.singleton_append]

theorem spell_dropped (dropped : st.keeps c = false) (t : Text) :
    spell st (c :: t) = spell st t := by
  rw [spell_cons, dropped, Spelling.next_of_not_keeps dropped]
  rfl

theorem spell_append (st : Spelling) (t u : Text) :
    spell st (t ++ u) = spell st t ++ spell (st.after t) u := by
  induction t generalizing st with
  | nil => rfl
  | cons c t ih =>
    rw [List.cons_append, spell_cons, spell_cons, ih, List.append_assoc]
    rfl

/-- What is kept is kept again. -/
theorem spell_spell (st : Spelling) (t : Text) : spell st (spell st t) = spell st t := by
  induction t generalizing st with
  | nil => rfl
  | cons c t ih =>
    cases kept : st.keeps c with
    | true => rw [spell_kept kept, spell_kept kept, ih]
    | false => rw [spell_dropped kept, ih]

/-! ## White space behind commas -/

section Gaps

variable {gap : Text} (blank : ∀ c ∈ gap, isBlank c = true)
include blank

/-- Outside quotes white space behind a comma is left out. -/
theorem spell_gap_outside (outside : st.quoted = false) (t : Text) :
    spell st (',' :: (gap ++ t)) = spell st (',' :: t) := by
  have behind : (st.next ',').quoted = false ∧ (st.next ',').afterComma = true := by
    simp [Spelling.next, isQuote, outside]
  have comma : st.keeps ',' = true := rfl
  rw [spell_kept comma, spell_kept comma]
  congr 1
  induction gap with
  | nil => rfl
  | cons c gap ih =>
    have dropped : (st.next ',').keeps c = false := by simp [Spelling.keeps, blank c, behind]
    rw [List.cons_append, spell_dropped dropped, ih fun d there => blank d (by simp [there])]

/-- Between quotes it is kept. -/
theorem spell_gap_quoted (quoted : st.quoted = true) (t : Text) :
    spell st (',' :: (gap ++ t)) = ',' :: (gap ++ spell ⟨true, false⟩ t) := by
  have behind : st.next ',' = ⟨true, false⟩ := by
    simp [Spelling.next, isQuote, Spelling.keeps, quoted, isBlank]
  have comma : st.keeps ',' = true := rfl
  rw [spell_kept comma, behind]
  congr 1
  induction gap with
  | nil => rfl
  | cons c gap ih =>
    have kept : Spelling.keeps ⟨true, false⟩ c = true := by simp [Spelling.keeps]
    rw [List.cons_append, spell_kept kept, Spelling.next_of_isBlank (blank c (by simp)),
      if_pos kept, ih fun d there => blank d (by simp [there])]
    rfl

end Gaps

/-! ## Type references -/

section Arguments

variable {start : Text} (outside : '<' ∉ start) (arguments : Text)
include outside

theorem takeWhile_start : (start ++ '<' :: arguments).takeWhile (· != '<') = start := by
  have other : ∀ c ∈ start, (c != '<') = true :=
    fun c there => bne_iff_ne.2 fun same => outside (same ▸ there)
  rw [List.takeWhile_append_of_pos other]
  simp

theorem dropWhile_start : (start ++ '<' :: arguments).dropWhile (· != '<') = '<' :: arguments := by
  have other : ∀ c ∈ start, (c != '<') = true :=
    fun c there => bne_iff_ne.2 fun same => outside (same ▸ there)
  rw [List.dropWhile_append_of_pos other]
  simp

theorem canonical_eq :
    canonical (start ++ '<' :: arguments) = Text.trim start ++ '<' ::
      spell ⟨false, false⟩ arguments := by
  have bracket : spell ⟨false, false⟩ ('<' :: arguments) = '<' :: spell ⟨false, false⟩ arguments :=
    spell_kept rfl _
  rw [canonical, if_pos (by simp), takeWhile_start outside, dropWhile_start outside, bracket]

theorem base_eq : base (start ++ '<' :: arguments) = Text.trim start := by
  rw [base, if_pos (by simp), takeWhile_start outside]

end Arguments

theorem exists_start (brackets : '<' ∈ t) :
    ∃ start arguments, '<' ∉ start ∧ t = start ++ '<' :: arguments := by
  obtain ⟨start, arguments, outside, same, -⟩ := exists_arguments brackets
  exact ⟨start, arguments, outside, same⟩

theorem canonical_of_not_mem (plain : '<' ∉ t) : canonical t = t := by
  rw [canonical, if_neg (by simpa using plain)]

/-- The canonical spelling is its own. -/
theorem canonical_canonical (t : Text) : canonical (canonical t) = canonical t := by
  by_cases brackets : '<' ∈ t
  · obtain ⟨start, arguments, outside, rfl⟩ := exists_start brackets
    have trimmed : '<' ∉ Text.trim start := fun there => outside (Text.mem_of_mem_trim there)
    rw [canonical_eq outside, canonical_eq trimmed, Text.trim_trim, spell_spell]
  · rw [canonical_of_not_mem brackets, canonical_of_not_mem brackets]

/-- The canonical spelling has the same base. -/
theorem base_canonical (t : Text) : base (canonical t) = base t := by
  by_cases brackets : '<' ∈ t
  · obtain ⟨start, arguments, outside, rfl⟩ := exists_start brackets
    have trimmed : '<' ∉ Text.trim start := fun there => outside (Text.mem_of_mem_trim there)
    rw [canonical_eq outside, base_eq trimmed, base_eq outside, Text.trim_trim]
  · rw [canonical_of_not_mem brackets]

/-- Whether the place behind a text lies outside quotes: since its first bracket, every quotation
mark opens or closes a literal, and none is open. -/
def OutsideQuotes (before : Text) : Prop :=
  (before.dropWhile (· != '<')).countP isQuote % 2 = 0

instance (before : Text) : Decidable (OutsideQuotes before) :=
  inferInstanceAs (Decidable (_ = _))

/-- Behind a comma between arguments, white space makes no difference if and only if the comma lies
outside quotes. -/
theorem canonical_gap_iff {before gap : Text} (brackets : '<' ∈ before)
    (blank : ∀ c ∈ gap, isBlank c = true) (after : Text) :
    canonical (before ++ ',' :: (gap ++ after)) = canonical (before ++ ',' :: after) ↔
      gap = [] ∨ OutsideQuotes before := by
  obtain ⟨start, arguments, outside, rfl⟩ := exists_start brackets
  have marks : OutsideQuotes (start ++ '<' :: arguments) ↔ arguments.countP isQuote % 2 = 0 := by
    rw [OutsideQuotes, dropWhile_start outside]
    rfl
  have quoted := Spelling.quoted_after arguments
  rw [marks, List.append_assoc, List.append_assoc, List.cons_append, List.cons_append,
    canonical_eq outside, canonical_eq outside, List.append_cancel_left_eq, List.cons_inj_right,
    spell_append, spell_append, List.append_cancel_left_eq]
  by_cases even : arguments.countP isQuote % 2 = 0
  · refine iff_of_true (spell_gap_outside blank ?_ after) (.inr even)
    rw [quoted, even]
    rfl
  · have odd : arguments.countP isQuote % 2 = 1 := by omega
    have inside := quoted.trans (decide_eq_true odd)
    have none : ∀ c ∈ ([] : Text), isBlank c = true := by simp
    have plain := spell_gap_quoted none inside after
    rw [List.nil_append] at plain
    rw [spell_gap_quoted blank inside, plain]
    simp [even]

/-- The canonical spelling of a type reference is a normal form, it does not depend on the white
space behind a comma that lies outside quotes, and it has the same base. -/
theorem spelling_is_canonical (t : Text) :
    canonical (canonical t) = canonical t ∧
      (∀ before gap after, '<' ∈ before → (∀ c ∈ gap, isBlank c = true) →
        (canonical (before ++ ',' :: (gap ++ after)) = canonical (before ++ ',' :: after) ↔
          gap = [] ∨ OutsideQuotes before)) ∧
      base (canonical t) = base t :=
  ⟨canonical_canonical t, fun _ _ after brackets blank => canonical_gap_iff brackets blank after,
    base_canonical t⟩

/-- Behind an empty literal too, white space is left out. -/
theorem gap_behind_literal_is_left_out :
    canonical "Map<\"a, b\",  \"\" K>".toList = "Map<\"a, b\",\"\"K>".toList ∧
    canonical ("Map<\"a, b\"".toList ++ ',' :: ("\n\u3000".toList ++ "\"\" K>".toList)) =
      canonical ("Map<\"a, b\"".toList ++ ',' :: "\"\" K>".toList) := by
  refine ⟨by decide, ?_⟩
  have blank : ∀ c ∈ "\n\u3000".toList, isBlank c = true := List.all_eq_true.1 (by decide)
  exact ((spelling_is_canonical []).2.1 _ _ _ (by decide) blank).2 (.inr (by decide))

end TypeList

end CodeGauge
