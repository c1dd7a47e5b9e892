import CodeGauge.Java.Word
import CodeGauge.Proofs.Text
import CodeGauge.Source.TypeHeader

/-!
# Type references

A type reference is a dotted name, which may be followed by arguments in angle brackets. How the
arguments are spelled is left open, as long as the brackets are balanced and nothing in them is
taken for the end of a header or of one of its clauses.

References with commas between them are told apart again (`split_listText`), since every other comma
stands in brackets.
-/

namespace CodeGauge

/-- Whether angle brackets are balanced in a text that starts `depth` brackets deep. -/
def balanced : Nat → Text → Bool
  | depth, [] => depth = 0
  | depth, c :: rest =>
    if c = '<' then balanced (depth + 1) rest
    else if c = '>' then 0 < depth && balanced (depth - 1) rest
    else balanced depth rest

/-- A reference to a type, as it is spelled in a header. -/
structure TypeRef where
  name : Text
  arguments : Text
  dotted : name ≠ [] ∧ ∀ c ∈ name, Java.isDottedChar c = true
  enclosed : arguments = [] ∨ ∃ inner, balanced 0 inner = true ∧ arguments = '<' :: (inner ++ ['>'])
  inHeader : ∀ c ∈ arguments, c ≠ '{' ∧ c ≠ ';'
  noClause : ∀ w ∈ Text.words (name ++ arguments), w ≠ "implements".toList ∧ w ≠ "permits".toList

theorem isBlank_of_isDottedChar {c : Char} (dotted : Java.isDottedChar c = true) :
    isBlank c = false := by
  by_contra blank
  rw [Bool.not_eq_false] at blank
  have := Text.isWordChar_of_isBlank blank
  have other : c = '$' ∨ c = '.' := by simpa [Java.isDottedChar, Java.isNameChar, this] using dotted
  rcases other with rfl | rfl <;> simp [isBlank] at blank

namespace TypeRef

variable (r : TypeRef)

/-- How a reference is spelled. -/
def text : Text := r.name ++ r.arguments

theorem visible : Text.Visible r.text := by
  constructor
  · obtain ⟨c, name, same⟩ := List.exists_cons_of_ne_nil r.dotted.1
    refine ⟨c, name ++ r.arguments, by rw [text, same]; rfl, ?_⟩
    exact isBlank_of_isDottedChar (r.dotted.2 c (by simp [same]))
  · rcases r.enclosed with none | ⟨inner, _, same⟩
    · obtain ⟨name, c, same⟩ := (List.eq_nil_or_concat' r.name).resolve_left r.dotted.1
      refine ⟨name, c, by rw [text, none, same, List.append_nil], ?_⟩
      exact isBlank_of_isDottedChar (r.dotted.2 c (by simp [same]))
    · exact ⟨r.name ++ '<' :: inner, '>', by rw [text, same]; simp, rfl⟩

theorem name_ne {c d : Char} (there : c ∈ r.name) (other : Java.isDottedChar d = false) :
    c ≠ d := by
  rintro rfl
  rw [r.dotted.2 c there] at other
  contradiction

theorem mem_text {c : Char} (there : c ∈ r.text) : c ≠ '{' ∧ c ≠ ';' := by
  rcases List.mem_append.1 there with there | there
  · exact ⟨r.name_ne there (by decide), r.name_ne there (by decide)⟩
  · exact r.inHeader c there

/-- If a bracket closes in a reference, one closes at its end. -/
theorem getLast?_text (closing : '>' ∈ r.text) : r.text.getLast? = some '>' := by
  rcases r.enclosed with none | ⟨inner, _, same⟩
  · rw [text, none, List.append_nil] at closing
    exact absurd rfl (r.name_ne closing (by decide))
  · rw [text, same, ← List.cons_append, ← List.append_assoc, List.getLast?_concat]

end TypeRef

/-! ## Lists of references -/

namespace TypeList

theorem pieces_ne_nil (depth : Int) (t : Text) : pieces depth t ≠ [] := by
  cases t with
  | nil => simp [pieces]
  | cons c t =>
    rw [pieces]
    split
    · simp
    · split <;> simp

/-- A character that is no comma, or stands in brackets, belongs to the piece that it stands in. -/
theorem pieces_cons {depth : Int} {c : Char} (inside : ¬ (c = ',' ∧ depth = 0)) (t : Text) :
    pieces depth (c :: t) = (pieces (behind depth c) t).modifyHead (c :: ·) := by
  rw [pieces, if_neg inside]
  obtain ⟨piece, more, split⟩ := List.exists_cons_of_ne_nil (pieces_ne_nil (behind depth c) t)
  rw [split]
  rfl

theorem pieces_plain {depth : Int} {u : Text} (plain : ∀ c ∈ u, c ≠ ',' ∧ c ≠ '<' ∧ c ≠ '>')
    (t : Text) :
    pieces depth (u ++ t) = (pieces depth t).modifyHead (u ++ ·) := by
  induction u with
  | nil => exact (congrFun List.modifyHead_id _).symm
  | cons c u ih =>
    obtain ⟨comma, opening, closing⟩ := plain c (by simp)
    rw [List.cons_append, pieces_cons (by simp [comma]), behind, if_neg opening, if_neg closing,
      ih fun d hd => plain d (by simp [hd]), List.modifyHead_modifyHead]
    rfl

/-- Balanced text in brackets belongs to one piece. -/
theorem pieces_balanced {n : Nat} {inner : Text} (h : balanced n inner = true) {depth : Nat}
    (deep : 0 < depth) (t : Text) :
    pieces ((n + depth : Nat) : Int) (inner ++ t) = (pieces depth t).modifyHead (inner ++ ·) := by
  induction inner generalizing n with
  | nil =>
    obtain rfl : n = 0 := by simpa [balanced] using h
    rw [Nat.zero_add]
    exact (congrFun List.modifyHead_id _).symm
  | cons c inner ih =>
    rw [balanced] at h
    rw [List.cons_append, pieces_cons (by omega), behind]
    by_cases opening : c = '<'
    · rw [if_pos opening] at h ⊢
      have deeper : ((n + depth : Nat) : Int) + 1 = ((n + 1 + depth : Nat) : Int) := by omega
      rw [deeper, ih h, List.modifyHead_modifyHead]
      rfl
    · rw [if_neg opening] at h ⊢
      by_cases closing : c = '>'
      · rw [if_pos closing] at h ⊢
        obtain ⟨open_bracket, h⟩ : 0 < n ∧ balanced (n - 1) inner = true := by simpa using h
        have higher : ((n + depth : Nat) : Int) - 1 = ((n - 1 + depth : Nat) : Int) := by omega
        rw [higher, ih h, List.modifyHead_modifyHead]
        rfl
      · rw [if_neg closing] at h ⊢
        rw [ih h, List.modifyHead_modifyHead]
        rfl

theorem pieces_comma (t : Text) : pieces 0 (',' :: t) = [] :: pieces 0 t := by
  simp [pieces]

/-- A reference belongs to one piece. -/
theorem pieces_typeRef (r : TypeRef) (t : Text) :
    pieces 0 (r.text ++ t) = (pieces 0 t).modifyHead (r.text ++ ·) := by
  have plain : ∀ c ∈ r.name, c ≠ ',' ∧ c ≠ '<' ∧ c ≠ '>' := fun c there =>
    ⟨r.name_ne there (by decide), r.name_ne there (by decide), r.name_ne there (by decide)⟩
  rw [TypeRef.text, List.append_assoc, pieces_plain plain]
  rcases r.enclosed with none | ⟨inner, inBrackets, same⟩
  · simp [none]
  · have opened : pieces 0 (r.arguments ++ t) =
        (pieces 1 (inner ++ '>' :: t)).modifyHead ('<' :: ·) := by
      rw [same, List.cons_append, pieces_cons (by simp)]
      simp [behind]
    have closed : pieces 1 ('>' :: t) = (pieces 0 t).modifyHead ('>' :: ·) := by
      rw [pieces_cons (by simp)]
      simp [behind]
    have between : pieces 1 (inner ++ '>' :: t) = (pieces 1 ('>' :: t)).modifyHead (inner ++ ·) :=
      pieces_balanced inBrackets Nat.one_pos ('>' :: t)
    rw [opened, between, closed]
    simp [List.modifyHead_modifyHead, Function.comp_def, same]

theorem dropEmptyLast_eq {items : List Text} (h : ∀ item ∈ items, item ≠ []) :
    dropEmptyLast items = items := by
  induction items with
  | nil => rfl
  | cons item items ih =>
    cases items with
    | nil => simpa [dropEmptyLast] using h item (by simp)
    | cons next items => rw [dropEmptyLast, ih fun i hi => h i (by simp [hi])]; simp

end TypeList

/-- References as a clause lists them. -/
def listText (refs : List TypeRef) : Text := Text.join ", ".toList (refs.map TypeRef.text)

theorem listText_nil : listText [] = [] := rfl

theorem listText_singleton (r : TypeRef) : listText [r] = r.text := by
  simp [listText, Text.join, List.intercalate]

theorem listText_cons_cons (r s : TypeRef) (refs : List TypeRef) :
    listText (r :: s :: refs) = r.text ++ ',' :: ' ' :: listText (s :: refs) :=
  Text.join_cons_cons ..

theorem listText_visible (r : TypeRef) (refs : List TypeRef) :
    Text.Visible (listText (r :: refs)) := by
  induction refs generalizing r with
  | nil => rw [listText_singleton]; exact r.visible
  | cons s refs ih =>
    rw [listText_cons_cons]
    simpa using r.visible.append [',', ' '] (ih s)

theorem mem_listText {refs : List TypeRef} {c : Char} (there : c ∈ listText refs) :
    c ≠ '{' ∧ c ≠ ';' := by
  rcases Text.mem_join there with sep | ⟨item, member, there⟩
  · have : c = ',' ∨ c = ' ' := by simpa using sep
    rcases this with rfl | rfl <;> decide
  · obtain ⟨r, _, rfl⟩ := List.mem_map.1 member
    exact r.mem_text there

/-- A comma belongs to the word before it, so no word of a list starts a clause. -/
theorem words_listText {refs : List TypeRef} {w : Text} (there : w ∈ Text.words (listText refs)) :
    w ≠ "implements".toList ∧ w ≠ "permits".toList := by
  induction refs with
  | nil => simp [listText_nil, Text.words, Text.splitWhere] at there
  | cons r refs ih =>
    cases refs with
    | nil => exact r.noClause w (by rwa [listText_singleton] at there)
    | cons s refs =>
      have split : listText (r :: s :: refs) =
          (r.text ++ [',']) ++ ' ' :: listText (s :: refs) := by
        rw [listText_cons_cons]
        simp
      rw [split, Text.words_append_blank (by decide), List.mem_append] at there
      rcases there with there | there
      · rcases Text.mem_words_append_singleton (by decide) there with there | comma
        · exact r.noClause w there
        · constructor <;> rintro rfl <;> simp at comma
      · exact ih there

theorem pieces_listText (r : TypeRef) (refs : List TypeRef) :
    TypeList.pieces 0 (listText (r :: refs)) = r.text :: refs.map fun s => ' ' :: s.text := by
  induction refs generalizing r with
  | nil =>
    have := TypeList.pieces_typeRef r []
    simpa [listText_singleton, TypeList.pieces] using this
  | cons s refs ih =>
    rw [listText_cons_cons, TypeList.pieces_typeRef, TypeList.pieces_comma,
      TypeList.pieces_cons (by simp), TypeList.behind, if_neg (by decide), if_neg (by decide), ih]
    simp

/-- A list is split into its references. -/
theorem split_listText (refs : List TypeRef) :
    TypeList.split (listText refs) = refs.map TypeRef.text := by
  cases refs with
  | nil => rfl
  | cons r refs =>
    have trimmed : (TypeList.pieces 0 (listText (r :: refs))).map Text.trim =
        (r :: refs).map TypeRef.text := by
      rw [pieces_listText]
      simp only [List.map_cons, List.map_map, r.visible.trim_eq, List.cons.injEq, true_and]
      refine List.map_congr_left fun s _ => ?_
      have := s.visible.trim_eq
      simpa [Text.trim, Text.trimStart, isBlank] using this
    rw [TypeList.split, trimmed]
    apply TypeList.dropEmptyLast_eq
    intro item there
    obtain ⟨s, _, rfl⟩ := List.mem_map.1 there
    exact s.visible.ne_nil

/-- The types that a clause names, in canonical spelling. -/
theorem supertypes_listText (refs : List TypeRef) :
    TypeHeader.supertypes (listText refs) = refs.map fun r => TypeList.canonical r.text := by
  have kept : (refs.map TypeRef.text).filter (!·.isEmpty) = refs.map TypeRef.text := by
    rw [List.filter_eq_self]
    intro item there
    obtain ⟨r, _, rfl⟩ := List.mem_map.1 there
    simpa using r.visible.ne_nil
  rw [TypeHeader.supertypes, split_listText, kept, List.map_map]
  rfl

end CodeGauge
