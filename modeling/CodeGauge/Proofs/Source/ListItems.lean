import CodeGauge.Proofs.Source.NextLine
import CodeGauge.Proofs.Source.TypeRef

/-!
# The items of a list

A list of type references is divided at its commas outside angle brackets: those before which as
many brackets open as close (`dividers`). The items are what stands between them, trimmed, without a
blank last one (`split_eq`). So items that are joined by commas with any white space around them are
told apart again, whatever is nested in them (`split_listed`).
-/

namespace CodeGauge

namespace Text

theorem trim_append_blanks {blanks : Text} (blank : ∀ c ∈ blanks, isBlank c = true) (t : Text) :
    trim (t ++ blanks) = trim t := by
  induction blanks using List.reverseRecOn with
  | nil => rw [List.append_nil]
  | append_singleton blanks c ih =>
    rw [← List.append_assoc, trim_concat (blank c (by simp)),
      ih fun d there => blank d (by simp [there])]

theorem trim_blanks_append {blanks : Text} (blank : ∀ c ∈ blanks, isBlank c = true) (t : Text) :
    trim (blanks ++ t) = trim t := by
  rw [trim, trimStart, List.dropWhile_append_of_pos blank]
  rfl

end Text

namespace TypeList

variable {depth : Int} {c : Char} {list text : Text} {items : List Text}

/-! ## Dividers -/

/-- The positions of the commas before which as many brackets open as close. -/
def dividers (list : Text) : List Nat :=
  (List.range list.length).filter fun i =>
    list[i]? = some ',' ∧ (list.take i).count '<' = (list.take i).count '>'

/-- What stands between the given positions of a text. -/
def between (text : Text) (positions : List Nat) : List Text :=
  List.zipWith (fun start stop => (text.take stop).drop start) (0 :: positions.map (· + 1))
    (positions ++ [text.length])

/-- The dividers of a text that starts `depth` brackets deep. -/
def dividersFrom (depth : Int) (list : Text) : List Nat :=
  (List.range list.length).filter fun i =>
    list[i]? = some ',' ∧ depth + (list.take i).count '<' = (list.take i).count '>'

theorem dividersFrom_zero (list : Text) : dividersFrom 0 list = dividers list := by
  simp only [dividersFrom, dividers, Int.zero_add, Int.ofNat_inj]

theorem behind_count (depth : Int) (c : Char) (t : Text) :
    behind depth c + t.count '<' - t.count '>' =
      depth + (c :: t).count '<' - (c :: t).count '>' := by
  unfold behind
  by_cases opening : c = '<'
  · simp [opening]
    omega
  · by_cases closing : c = '>'
    · simp [closing]
      omega
    · simp [opening, closing]

theorem foldl_behind (depth : Int) (t : Text) :
    t.foldl behind depth = depth + t.count '<' - t.count '>' := by
  induction t generalizing depth with
  | nil => simp
  | cons c t ih => rw [List.foldl_cons, ih, behind_count]

/-- The depth stays in 32 bits, if there are not too many brackets. -/
theorem depth_bounds {front : Text} (opening : list.count '<' < 2147483648)
    (closing : list.count '>' < 2147483648) (start : front <+: list) :
    -2147483648 ≤ front.foldl behind 0 ∧ front.foldl behind 0 < 2147483648 := by
  have fewer (c : Char) : front.count c ≤ list.count c := start.sublist.count_le c
  have opened := fewer '<'
  have closed := fewer '>'
  rw [foldl_behind]
  constructor <;> omega

theorem dividersFrom_cons (depth : Int) (c : Char) (t : Text) :
    dividersFrom depth (c :: t) =
      (if c = ',' ∧ depth = 0 then [0] else []) ++
        (dividersFrom (behind depth c) t).map (· + 1) := by
  have later (i : Nat) : depth + (c :: t.take i).count '<' = (c :: t.take i).count '>' ↔
      behind depth c + (t.take i).count '<' = (t.take i).count '>' := by
    have := behind_count depth c (t.take i)
    omega
  rw [dividersFrom, List.length_cons, List.range_succ_eq_map, List.filter_cons, List.filter_map]
  simp only [Function.comp_def, Nat.succ_eq_add_one, List.getElem?_cons_succ,
    List.take_succ_cons, later]
  split <;> simp_all [dividersFrom]

/-- Behind the first character all positions are one further. -/
theorem zipWith_shift (c : Char) (t : Text) (starts stops : List Nat) :
    List.zipWith (fun start stop => ((c :: t).take stop).drop start) (starts.map (· + 1))
    (stops.map (· + 1)) =
      List.zipWith (fun start stop => (t.take stop).drop start) starts stops :=
  List.zipWith_map

theorem between_zero_cons (c : Char) (t : Text) (positions : List Nat) :
    between (c :: t) (0 :: positions.map (· + 1)) = [] :: between t positions := by
  have stops : positions.map (· + 1) ++ [(c :: t).length] =
      (positions ++ [t.length]).map (· + 1) := by
    simp
  have shifted := zipWith_shift c t (0 :: positions.map (· + 1)) (positions ++ [t.length])
  rw [between, List.cons_append, List.zipWith_cons_cons, stops]
  exact congrArg _ shifted

theorem between_cons (c : Char) (t : Text) (positions : List Nat) :
    between (c :: t) (positions.map (· + 1)) = (between t positions).modifyHead (c :: ·) := by
  have stops : positions.map (· + 1) ++ [(c :: t).length] =
      (positions ++ [t.length]).map (· + 1) := by
    simp
  obtain ⟨stop, others, split⟩ := List.exists_cons_of_ne_nil (List.concat_ne_nil t.length positions)
  have shifted := zipWith_shift c t (positions.map (· + 1)) others
  rw [between, stops, between, split, List.map_cons, List.zipWith_cons_cons,
    List.zipWith_cons_cons, shifted]
  rfl

/-- The pieces of a text are what stands between its dividers. -/
theorem pieces_eq_between (depth : Int) (list : Text) :
    pieces depth list = between list (dividersFrom depth list) := by
  induction list generalizing depth with
  | nil => rfl
  | cons c t ih =>
    rw [dividersFrom_cons]
    by_cases divides : c = ',' ∧ depth = 0
    · obtain ⟨rfl, rfl⟩ := divides
      rw [pieces_comma, if_pos ⟨rfl, rfl⟩, List.singleton_append, between_zero_cons, ← ih]
      rfl
    · rw [pieces_cons divides, if_neg divides, List.nil_append, between_cons, ← ih]

/-! ## Items -/

theorem dropEmptyLast_eq_ite (items : List Text) :
    dropEmptyLast items = if items.getLast? = some [] then items.dropLast else items := by
  fun_induction dropEmptyLast items with
  | case1 => rfl
  | case2 last empty => simp_all
  | case3 last some_char => simp_all
  | case4 item items some_item ih =>
    obtain ⟨next, rest, rfl⟩ := List.exists_cons_of_ne_nil some_item
    rw [ih, List.getLast?_cons_cons, List.dropLast_cons_cons]
    split <;> rfl

/-- The items of a list are what stands between its dividers, trimmed, without a blank last one. -/
theorem split_eq (list : Text) :
    split list =
      let items := (between list (dividers list)).map Text.trim
      if items.getLast? = some [] then items.dropLast else items := by
  rw [split, dropEmptyLast_eq_ite, pieces_eq_between, dividersFrom_zero]

/-- A text without dividers belongs to one piece. -/
theorem pieces_append {u : Text} (whole : dividersFrom depth u = []) (t : Text) :
    pieces depth (u ++ t) = (pieces (depth + u.count '<' - u.count '>') t).modifyHead (u ++ ·) := by
  induction u generalizing depth with
  | nil =>
    have here : depth + ([] : Text).count '<' - ([] : Text).count '>' = depth := by simp
    rw [here]
    exact (congrFun List.modifyHead_id _).symm
  | cons c u ih =>
    rw [dividersFrom_cons, List.append_eq_nil_iff, List.map_eq_nil_iff] at whole
    obtain ⟨first, others⟩ := whole
    have inside : ¬ (c = ',' ∧ depth = 0) := fun divides => by simp [divides] at first
    have rest := ih others
    rw [behind_count] at rest
    rw [List.cons_append, pieces_cons inside]
    show (pieces (behind depth c) (u ++ t)).modifyHead (c :: ·) = _
    rw [rest, List.modifyHead_modifyHead]
    rfl

/-- Whether a text is an item: it is trimmed and not empty, its brackets are as many opening as
closing ones, and no comma divides it. -/
structure IsItem (t : Text) : Prop where
  trimmed : Text.trim t = t
  spelled : t ≠ []
  balanced : t.count '<' = t.count '>'
  whole : dividers t = []

instance (t : Text) : Decidable (IsItem t) :=
  decidable_of_iff (Text.trim t = t ∧ t ≠ [] ∧ t.count '<' = t.count '>' ∧ dividers t = [])
    ⟨fun h => ⟨h.1, h.2.1, h.2.2.1, h.2.2.2⟩, fun h => ⟨h.trimmed, h.spelled, h.balanced, h.whole⟩⟩

/-- Items joined by commas, with any white space around each comma. -/
inductive Listed : List Text → Text → Prop
  | none : Listed [] []
  | last (item : Text) : Listed [item] item
  | cons (item before after : Text) {items : List Text} {text : Text} (more : Listed items text)
      (some_item : items ≠ []) (blank : ∀ c ∈ before ++ after, isBlank c = true) :
      Listed (item :: items) (item ++ (before ++ ',' :: (after ++ text)))

theorem IsItem.pieces_append {item : Text} (h : IsItem item) (t : Text) :
    pieces 0 (item ++ t) = (pieces 0 t).modifyHead (item ++ ·) := by
  have whole : dividersFrom 0 item = [] := by rw [dividersFrom_zero, h.whole]
  rw [TypeList.pieces_append whole, h.balanced, Int.zero_add, Int.sub_self]

theorem pieces_blanks {blanks : Text} (blank : ∀ c ∈ blanks, isBlank c = true) (t : Text) :
    pieces depth (blanks ++ t) = (pieces depth t).modifyHead (blanks ++ ·) := by
  refine pieces_plain (fun c there => ?_) t
  have other {d : Char} (visible : isBlank d = false) : c ≠ d := by
    rintro rfl
    rw [blank c there] at visible
    contradiction
  exact ⟨other (by decide), other (by decide), other (by decide)⟩

/-- The pieces of joined items are the items, but for white space. -/
theorem trim_pieces_listed (listed : Listed items text) (some_item : items ≠ [])
    (each : ∀ item ∈ items, IsItem item) : (pieces 0 text).map Text.trim = items := by
  induction listed with
  | none => contradiction
  | last item =>
    have alone := (each item (by simp)).pieces_append []
    rw [List.append_nil] at alone
    simp [alone, pieces, (each item (by simp)).trimmed]
  | @cons item before after items text more goes_on blank ih =>
    have first := each item (by simp)
    have rest := ih goes_on fun other there => each other (by simp [there])
    obtain ⟨piece, pieces, split⟩ := List.exists_cons_of_ne_nil (pieces_ne_nil 0 text)
    have blank_before : ∀ c ∈ before, isBlank c = true := fun c there => blank c (by simp [there])
    have blank_after : ∀ c ∈ after, isBlank c = true := fun c there => blank c (by simp [there])
    rw [first.pieces_append, pieces_blanks blank_before, pieces_comma,
      pieces_blanks blank_after, split]
    rw [split] at rest
    simpa [Text.trim_append_blanks blank_before, Text.trim_blanks_append blank_after,
      first.trimmed] using rest

/-- Joined items are told apart again. -/
theorem split_listed (listed : Listed items text) (each : ∀ item ∈ items, IsItem item) :
    split text = items := by
  by_cases some_item : items = []
  · subst some_item
    cases listed
    rfl
  · rw [split, trim_pieces_listed listed some_item each,
      dropEmptyLast_eq fun item there => (each item there).spelled]

/-- A list is split exactly at its dividers, and only a blank last item is left out; so items that
are joined by commas and white space are what the list is split into. The depth that is kept on the
way stays in 32 bits for every list with fewer than 2147483648 brackets of each kind. -/
theorem split_is_exact (list : Text) :
    (split list =
      let items := (between list (dividers list)).map Text.trim
      if items.getLast? = some [] then items.dropLast else items) ∧
    (∀ items text, (∀ item ∈ items, IsItem item) → Listed items text → split text = items) ∧
    (list.count '<' < 2147483648 → list.count '>' < 2147483648 → ∀ front, front <+: list →
      -2147483648 ≤ front.foldl behind 0 ∧ front.foldl behind 0 < 2147483648) :=
  ⟨split_eq list, fun _ _ each listed => split_listed listed each,
    fun opening closing _ start => depth_bounds opening closing start⟩

/-- An item may hold commas in brackets, and brackets that close before they open. -/
theorem nested_items_are_split :
    let items := ["Map<K, List<V>>", "a>, <b", "C"].map String.toList
    (∀ item ∈ items, IsItem item) ∧ Listed items "Map<K, List<V>> ,\n\ta>, <b,C".toList ∧
      split "Map<K, List<V>> ,\n\ta>, <b,C".toList = items := by
  intro items
  have each : ∀ item ∈ items, IsItem item := by decide
  have blank : ∀ gap ∈ [" \n\t".toList, []], ∀ c ∈ gap, isBlank c = true := by simp [isBlank]
  have listed : Listed items "Map<K, List<V>> ,\n\ta>, <b,C".toList :=
    .cons "Map<K, List<V>>".toList " ".toList "\n\t".toList
      (.cons "a>, <b".toList [] [] (.last "C".toList) (by decide) (blank _ (by simp)))
      (by decide) (blank _ (by simp))
  exact ⟨each, listed, (split_is_exact []).2.1 items _ each listed⟩

end TypeList

end CodeGauge
