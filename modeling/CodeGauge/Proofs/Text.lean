import Mathlib.Data.List.Basic
import Mathlib.Data.List.TakeWhile
import CodeGauge.Text.Basic
import CodeGauge.Text.WordChar

/-!
# Cutting texts up

What `Text.splitWhere` makes of a text, from left to right: a separator ends a piece, and any other
character belongs to the piece that it stands in. With white space as separator the pieces are
words, and `Text.firstWord` is the one that a text starts with.
-/

namespace CodeGauge

namespace Text

variable {α : Type} {isSep : α → Bool}

theorem exists_cons_of_head? {accepts : Char → Bool} {t : Text} (h : t.head?.any accepts = true) :
    ∃ c rest, t = c :: rest ∧ accepts c = true := by
  cases t with
  | nil => simp at h
  | cons c rest => exact ⟨c, rest, rfl, by simpa using h⟩

theorem splitWhere_ne_nil (isSep : α → Bool) (t : List α) : splitWhere isSep t ≠ [] := by
  cases t with
  | nil => simp [splitWhere]
  | cons c t =>
    rw [splitWhere]
    split
    · simp
    · split <;> simp

theorem splitWhere_sep {c : α} (sep : isSep c = true) (t : List α) :
    splitWhere isSep (c :: t) = [] :: splitWhere isSep t := by
  simp [splitWhere, sep]

theorem splitWhere_other {c : α} (other : isSep c = false) (t : List α) :
    splitWhere isSep (c :: t) = (splitWhere isSep t).modifyHead (c :: ·) := by
  obtain ⟨piece, more, split⟩ := List.exists_cons_of_ne_nil (splitWhere_ne_nil isSep t)
  simp [splitWhere, other, split]

/-- The pieces before a separator and those after it are apart. -/
theorem splitWhere_append_sep {c : α} (sep : isSep c = true) (a b : List α) :
    splitWhere isSep (a ++ c :: b) = splitWhere isSep a ++ splitWhere isSep b := by
  induction a with
  | nil => simp [splitWhere, sep]
  | cons d a ih =>
    by_cases other : isSep d = true
    · rw [List.cons_append, splitWhere_sep other, splitWhere_sep other, ih, List.cons_append]
    · rw [Bool.not_eq_true] at other
      rw [List.cons_append, splitWhere_other other, splitWhere_other other, ih]
      obtain ⟨piece, more, split⟩ := List.exists_cons_of_ne_nil (splitWhere_ne_nil isSep a)
      rw [split]
      rfl

/-- A text without separators is one piece. -/
theorem splitWhere_of_forall_not {t : List α} (whole : ∀ c ∈ t, isSep c = false) :
    splitWhere isSep t = [t] := by
  induction t with
  | nil => rfl
  | cons c t ih =>
    rw [splitWhere_other (whole c (by simp)), ih fun d hd => whole d (by simp [hd])]
    rfl

/-- A character behind a text belongs to its last piece. -/
theorem splitWhere_append_other {c : α} (other : isSep c = false) (t : List α) :
    ∃ before last, splitWhere isSep t = before ++ [last] ∧
      splitWhere isSep (t ++ [c]) = before ++ [last ++ [c]] := by
  induction t with
  | nil => exact ⟨[], [], rfl, by simp [splitWhere, other]⟩
  | cons d t ih =>
    obtain ⟨before, last, eq, eq'⟩ := ih
    by_cases sep : isSep d = true
    · refine ⟨[] :: before, last, ?_, ?_⟩
      · rw [splitWhere_sep sep, eq, List.cons_append]
      · rw [List.cons_append, splitWhere_sep sep, eq', List.cons_append]
    · rw [Bool.not_eq_true] at sep
      rw [List.cons_append, splitWhere_other sep, splitWhere_other sep, eq, eq']
      cases before with
      | nil => exact ⟨[], d :: last, rfl, rfl⟩
      | cons piece before => exact ⟨(d :: piece) :: before, last, rfl, rfl⟩

theorem head?_splitWhere (isSep : α → Bool) (t : List α) :
    (splitWhere isSep t).head? = some (t.takeWhile (!isSep ·)) := by
  induction t with
  | nil => rfl
  | cons c t ih =>
    by_cases sep : isSep c = true
    · simp [splitWhere_sep sep, sep]
    · rw [Bool.not_eq_true] at sep
      rw [splitWhere_other sep, List.head?_modifyHead, ih]
      simp [sep]

/-! ## Words -/

/-- The code points of white space. -/
def blankCodes : List Nat :=
  0x20 :: List.range' 0x09 5 ++ [0x85, 0xa0, 0x1680] ++ List.range' 0x2000 11 ++
    [0x2028, 0x2029, 0x202f, 0x205f, 0x3000]

theorem toNat_mem_blankCodes {c : Char} (blank : isBlank c = true) : c.toNat ∈ blankCodes := by
  by_cases space : c = ' '
  · rw [space]
    decide
  · simp [isBlank, space] at blank
    simp only [blankCodes, List.mem_append, List.mem_cons, List.mem_range'_1,
      List.not_mem_nil, or_false]
    rcases blank with (((((((((h | h) | h) | h) | h) | h) | h) | h) | h) | h) <;> simp [h] <;> omega

/-- White space has no word characters. -/
theorem isWordChar_of_isBlank {c : Char} (blank : isBlank c = true) : isWordChar c = false := by
  have none : ∀ n ∈ blankCodes, isWordChar (Char.ofNat n) = false := by decide +kernel
  simpa using none c.toNat (toNat_mem_blankCodes blank)

theorem isWordChar_of_isAlphanum {c : Char} (h : c.isAlphanum = true) : isWordChar c = true := by
  have ascii : c.toNat < 128 := by
    -- The ranges of upper case letters, lower case letters and digits.
    have ranges : ((c.val ≥ 65 ∧ c.val ≤ 90) ∨ (c.val ≥ 97 ∧ c.val ≤ 122)) ∨
        (c.val ≥ 48 ∧ c.val ≤ 57) := by
      have h :
          ((decide (c.val ≥ 65 ∧ c.val ≤ 90) || (decide (c.val ≥ 97) && decide (c.val ≤ 122))) ||
        (decide (c.val ≥ 48) && decide (c.val ≤ 57))) = true := h
      simpa using h
    simp only [ge_iff_le, UInt32.le_iff_toNat_le, UInt32.reduceToNat] at ranges
    show c.val.toNat < 128
    omega
  simp [isWordChar, ascii, isAsciiWordChar, h]

/-- The first word of a text, after the white space at its start. -/
def firstWord (t : Text) : Text := (trimStart t).takeWhile (!isBlank ·)

theorem firstWord_blank {c : Char} (blank : isBlank c = true) (t : Text) :
    firstWord (c :: t) = firstWord t := by
  simp [firstWord, trimStart, blank]

theorem firstWord_blanks {u : Text} (blank : ∀ c ∈ u, isBlank c = true) (t : Text) :
    firstWord (u ++ t) = firstWord t := by
  induction u with
  | nil => rfl
  | cons c u ih =>
    rw [List.cons_append, firstWord_blank (blank c (by simp)),
      ih fun d hd => blank d (by simp [hd])]

theorem firstWord_ne_nil {t : Text} (some_word : trimStart t ≠ []) : firstWord t ≠ [] := by
  obtain ⟨c, rest, same⟩ := List.exists_cons_of_ne_nil some_word
  have visible := List.head?_dropWhile_not isBlank t
  rw [← trimStart, same] at visible
  have visible : isBlank c = false := by simpa using visible
  simp [firstWord, same, visible]

theorem words_append_blank {c : Char} (blank : isBlank c = true) (a b : Text) :
    words (a ++ c :: b) = words a ++ words b := by
  rw [words, splitWhere_append_sep blank, List.filter_append]
  rfl

theorem firstWord_mem_words {t : Text} (some_word : trimStart t ≠ []) : firstWord t ∈ words t := by
  replace some_word := firstWord_ne_nil some_word
  induction t with
  | nil => exact absurd rfl some_word
  | cons c t ih =>
    by_cases blank : isBlank c = true
    · rw [firstWord_blank blank] at some_word ⊢
      have split := words_append_blank blank [] t
      rw [List.nil_append] at split
      rw [split]
      exact List.mem_append_right _ (ih some_word)
    · have first : firstWord (c :: t) = (c :: t).takeWhile (!isBlank ·) := by
        simp [firstWord, trimStart, blank]
      have head := head?_splitWhere isBlank (c :: t)
      rw [← first] at head
      exact List.mem_filter.2 ⟨List.mem_of_mem_head? head, by simpa using some_word⟩

/-- The first word behind white space is one of the words. -/
theorem firstWord_mem_words_append {v : Text} (blank : v.head?.any isBlank = true)
    (some_word : trimStart v ≠ []) (a : Text) : firstWord v ∈ words (a ++ v) := by
  obtain ⟨c, v, rfl, first⟩ := exists_cons_of_head? blank
  have start : trimStart (c :: v) = trimStart v := by simp [trimStart, first]
  rw [words_append_blank first, firstWord_blank first]
  exact List.mem_append_right _ (firstWord_mem_words (start ▸ some_word))

/-- A character at the end of a text changes its last word only. -/
theorem mem_words_append_singleton {c : Char} (visible : isBlank c = false) {t w : Text}
    (there : w ∈ words (t ++ [c])) : w ∈ words t ∨ c ∈ w := by
  obtain ⟨before, last, eq, eq'⟩ := splitWhere_append_other visible t
  obtain ⟨piece, some_word⟩ := List.mem_filter.1 there
  rw [eq', List.mem_append, List.mem_singleton] at piece
  rcases piece with early | rfl
  · exact .inl (List.mem_filter.2 ⟨by rw [eq]; exact List.mem_append_left _ early, some_word⟩)
  · exact .inr (by simp)

theorem trimStart_append {t : Text} (some_word : trimStart t ≠ []) (more : Text) :
    trimStart (t ++ more) = trimStart t ++ more := by
  unfold trimStart at some_word ⊢
  rw [List.dropWhile_append, if_neg (by simpa using some_word)]

/-- Whether the first word goes on to a character behind a text, or ends before it, does not hang on
what stands there. -/
theorem firstWord_append {c : Char} (visible : isBlank c = false) (t : Text) :
    (∀ more, firstWord (t ++ c :: more) = firstWord t) ∨
      ∀ more, c ∈ firstWord (t ++ c :: more) := by
  have start (more : Text) : trimStart (t ++ c :: more) = trimStart t ++ c :: more := by
    unfold trimStart
    rw [List.dropWhile_append]
    split
    · simp_all
    · rfl
  by_cases whole : ∀ d ∈ trimStart t, (!isBlank d) = true
  · right
    intro more
    rw [firstWord, start, List.takeWhile_append_of_pos whole]
    simp [visible]
  · left
    intro more
    have short : ((trimStart t).takeWhile (!isBlank ·)).length ≠ (trimStart t).length := fun same =>
      whole (List.takeWhile_eq_self_iff.1 ((List.takeWhile_prefix _).eq_of_length same))
    rw [firstWord, start, List.takeWhile_append, if_neg short]
    rfl

theorem firstWord_append_blank {c : Char} (blank : isBlank c = true) {t : Text}
    (some_word : trimStart t ≠ []) (more : Text) : firstWord (t ++ c :: more) = firstWord t := by
  rw [firstWord, trimStart_append some_word, List.takeWhile_append]
  split
  · rename_i whole
    rw [firstWord, (List.takeWhile_prefix _).eq_of_length whole]
    simp [blank]
  · rfl

/-! ## Texts without white space at their ends -/

/-- Whether a text starts and ends with something visible. -/
structure Visible (t : Text) : Prop where
  first : ∃ c u, t = c :: u ∧ isBlank c = false
  last : ∃ u c, t = u ++ [c] ∧ isBlank c = false

namespace Visible

variable {t u : Text}

theorem ne_nil (h : Visible t) : t ≠ [] := by
  obtain ⟨c, u, rfl, _⟩ := h.first
  simp

theorem append (h : Visible t) (between : Text) (g : Visible u) : Visible (t ++ between ++ u) := by
  obtain ⟨c, t', rfl, first⟩ := h.first
  obtain ⟨u', d, rfl, last⟩ := g.last
  exact ⟨⟨c, _, rfl, first⟩, ⟨_, d, (List.append_assoc ..).symm, last⟩⟩

theorem trimStart_eq (h : Visible t) : trimStart t = t := by
  obtain ⟨c, u, rfl, first⟩ := h.first
  simp [trimStart, first]

theorem trim_eq (h : Visible t) : trim t = t := by
  obtain ⟨u, c, same, last⟩ := h.last
  rw [trim, h.trimStart_eq, trimEnd, same]
  simp [last]

/-- Whatever is left of such a text holds something visible. -/
theorem trimStart_suffix (h : Visible (t ++ u)) (left : u ≠ []) : trimStart u ≠ [] := by
  obtain ⟨v, c, same, last⟩ := h.last
  obtain ⟨u, d, rfl⟩ := (List.eq_nil_or_concat' u).resolve_left left
  rw [← List.append_assoc] at same
  obtain rfl : d = c := List.singleton_injective (List.append_inj' same rfl).2
  intro blank
  have := List.dropWhile_eq_nil_iff.1 blank d (by simp)
  simp [last] at this

end Visible

/-! ## Texts one after the other -/

theorem join_cons_cons (sep item next : List α) (items : List (List α)) :
    join sep (item :: next :: items) = item ++ (sep ++ join sep (next :: items)) := by
  simp [join, List.intercalate]

/-- Pieces without separators, joined by one, are the pieces. -/
theorem splitWhere_join {c : α} (sep : isSep c = true) {pieces : List (List α)}
    (some_piece : pieces ≠ []) (whole : ∀ piece ∈ pieces, ∀ d ∈ piece, isSep d = false) :
    splitWhere isSep (join [c] pieces) = pieces := by
  induction pieces with
  | nil => exact absurd rfl some_piece
  | cons piece pieces ih =>
    have first := splitWhere_of_forall_not (whole piece (by simp))
    cases pieces with
    | nil => simpa [join] using first
    | cons next pieces =>
      have rest := ih (by simp) fun other there => whole other (by simp [there])
      rw [join_cons_cons, List.singleton_append, splitWhere_append_sep sep, first, rest]
      rfl

theorem join_concat {sep : List α} {items : List (List α)} (some_item : items ≠ [])
    (last : List α) :
    join sep (items ++ [last]) = join sep items ++ (sep ++ last) := by
  induction items with
  | nil => contradiction
  | cons item items ih =>
    cases items with
    | nil => simp [join, List.intercalate]
    | cons next items =>
      have rest := ih (by simp)
      rw [List.cons_append] at rest
      rw [List.cons_append, List.cons_append, join_cons_cons, join_cons_cons, rest]
      simp

theorem mem_join {sep : List α} {items : List (List α)} {c : α} (there : c ∈ join sep items) :
    c ∈ sep ∨ ∃ item ∈ items, c ∈ item := by
  induction items with
  | nil => simp [join, List.intercalate] at there
  | cons item items ih =>
    cases items with
    | nil => exact .inr ⟨item, by simp, by simpa [join, List.intercalate] using there⟩
    | cons next items =>
      rw [join_cons_cons, List.mem_append, List.mem_append] at there
      rcases there with there | there | there
      · exact .inr ⟨item, by simp, there⟩
      · exact .inl there
      · rcases ih there with there | ⟨found, member, there⟩
        · exact .inl there
        · exact .inr ⟨found, List.mem_cons_of_mem _ member, there⟩

end Text

end CodeGauge
