import CodeGauge.Proofs.Json.Tokens
import CodeGauge.Proofs.Text

/-!
# JSON texts read back

A value that is laid out over several lines is read back as it was (`parse?_pretty`), if its numbers
are and if it is not nested too deep (`Readable`). Blocks are read item by item: an item ends at the
comma or at the line end behind it, and the white space of the layout is skipped.
-/

namespace CodeGauge

namespace Json

/-- The decimal form of a double is read as that double. -/
def ReadsBack (x : Float) : Prop := readNumber (floatText x) = some (.float x, [])

/-- Values whose numbers are read back and that are nested at most so deep. -/
inductive Readable : Nat → Json → Prop
  | null {depth : Nat} : Readable depth .null
  | bool {depth : Nat} (b : Bool) : Readable depth (.bool b)
  | int {depth : Nat} {n : Int} (fits : FitsWhole n) : Readable depth (.int n)
  | float {depth : Nat} {x : Float} (back : ReadsBack x) : Readable depth (.float x)
  | str {depth : Nat} (s : String) : Readable depth (.str s)
  | arr {depth : Nat} {items : List Json} (each : ∀ j ∈ items, Readable depth j) :
      Readable (depth + 1) (.arr items)
  | obj {depth : Nat} {fields : List (String × Json)} (each : ∀ e ∈ fields, Readable depth e.2) :
      Readable (depth + 1) (.obj fields)

variable {depth indent fuel : Nat} {t rest : Text} {j : Json}

/-! ## White space -/

theorem skipSpace_newline (k : Nat) (t : Text) : skipSpace (newline k ++ t) = skipSpace t := by
  have blank : ∀ c ∈ newline k, isSpace c = true := by
    intro c there
    rcases List.mem_cons.1 there with rfl | there
    · rfl
    · rw [List.eq_of_mem_replicate there]
      rfl
  exact List.dropWhile_append_of_pos blank

theorem skipSpace_space (t : Text) : skipSpace (' ' :: t) = skipSpace t := rfl

theorem skipSpace_cons {c : Char} (visible : isSpace c = false) (t : Text) :
    skipSpace (c :: t) = c :: t := by
  simp [skipSpace, visible]

theorem readItems_skip {s : Text} (same : skipSpace s = skipSpace t) :
    readItems fuel depth s = readItems fuel depth t := by
  cases fuel with
  | zero => simp [readItems]
  | succ fuel => simp only [readItems, readValue_skip same]

theorem readFields_skip {s : Text} (same : skipSpace s = skipSpace t) :
    readFields fuel depth s = readFields fuel depth t := by
  cases fuel with
  | zero => simp [readFields]
  | succ fuel => simp only [readFields, same]

/-! ## Values -/

/-- Every number starts with a minus or a digit. -/
theorem head_of_readNumber {r : Json × Text} (read : readNumber t = some r) :
    ∃ c more, t = c :: more ∧ (c = '-' ∨ c.isDigit = true) := by
  cases t with
  | nil => cases read
  | cons c more =>
    refine ⟨c, more, rfl, ?_⟩
    by_contra neither
    rw [not_or] at neither
    rw [readNumber_of_head (by simpa using neither.1)] at read
    simp [readUnsigned, readWhole, spanDigits_eq, neither.2] at read

theorem readValue_number {c : Char} (start : c = '-' ∨ c.isDigit = true) (t : Text) :
    readValue (fuel + 1) depth (c :: t) = readNumber (c :: t) := by
  have other : ∀ d, d ≠ '-' → d.isDigit = false → c ≠ d := by
    rintro d minus digit rfl
    simp [minus, digit] at start
  have visible : isSpace c = false := by simp [isSpace, other]
  simp [readValue, skipSpace_cons visible, other]

/-- A value is read back from its layout, whatever follows it in a block. -/
def Restored (depth : Nat) (j : Json) : Prop :=
  ∀ indent fuel rest, (prettyAt indent j).length ≤ fuel → Delimits rest →
    readValue fuel depth (prettyAt indent j ++ rest) = some (j, rest)

/-- No value is written as nothing, so the reader has a step to take. -/
theorem Restored.of_step (written : ∀ indent, prettyAt indent j ≠ [])
    (read : ∀ indent fuel rest, (prettyAt indent j).length ≤ fuel + 1 → Delimits rest →
      readValue (fuel + 1) depth (prettyAt indent j ++ rest) =
        some (j, rest)) : Restored depth j := by
  intro indent fuel rest enough ends
  have positive := List.length_pos_iff.2 (written indent)
  obtain ⟨fuel, rfl⟩ := Nat.exists_eq_add_one_of_ne_zero (show fuel ≠ 0 by omega)
  exact read indent fuel rest enough ends

theorem restored_null : Restored depth .null :=
  .of_step (by simp [prettyAt]) fun indent fuel rest _ _ => by
    simp [prettyAt, readValue, skipSpace, isSpace]

theorem restored_bool (b : Bool) : Restored depth (.bool b) :=
  .of_step (by cases b <;> simp [prettyAt]) fun indent fuel rest _ _ => by
    cases b <;> simp [prettyAt, readValue, skipSpace, isSpace]

theorem restored_of_readNumber (written : ∀ indent, readNumber (prettyAt indent j) = some (j, [])) :
    Restored depth j := by
  refine .of_step (fun indent empty => ?_) fun indent fuel rest _ ends => ?_
  · obtain ⟨c, more, text, -⟩ := head_of_readNumber (written indent)
    simp [empty] at text
  · obtain ⟨c, more, text, start⟩ := head_of_readNumber (written indent)
    have read := readNumber_append (written indent) ends
    rw [text, List.cons_append] at read ⊢
    rwa [readValue_number start]

theorem restored_str (s : String) : Restored depth (.str s) := by
  have quote : isSpace '"' = false := by decide
  refine .of_step (by simp [prettyAt, quoted]) fun indent fuel rest _ _ => ?_
  simp only [prettyAt, quoted, List.cons_append, List.append_assoc, readValue, skipSpace_cons quote]
  simp [readString_escape]

/-! ## Blocks -/

theorem delimits_comma (t : Text) : Delimits (',' :: t) := by simp [Delimits]

theorem delimits_newline (k : Nat) (t : Text) : Delimits (newline k ++ t) := by
  simp [Delimits, newline]

theorem skipSpace_closing {c : Char} (visible : isSpace c = false) (k : Nat) (t : Text) :
    skipSpace (newline k ++ c :: t) = c :: t := by
  rw [skipSpace_newline, skipSpace_cons visible]

/-- A loop that reads one item after the other reads a whole block, if it stops behind the last
item, goes on behind a comma and skips white space. -/
theorem read_block {α : Type} (loop : Nat → Text → Option (List α × Text)) {written : α → Text}
    {closing : Text} {items : List α} (some_item : items ≠ [])
    (skip : ∀ fuel s t, skipSpace s = skipSpace t → loop fuel s = loop fuel t)
    (last : ∀ a ∈ items, ∀ fuel, (written a).length ≤ fuel →
      loop (fuel + 1) (written a ++ closing) = some ([a], rest))
    (more : ∀ a ∈ items, ∀ fuel t, (written a).length ≤ fuel →
      loop (fuel + 1) (written a ++ ',' :: t) = (loop fuel t).map fun (as, left) => (a :: as, left))
    (enough : (Text.join (',' :: newline indent) (items.map written)).length < fuel) :
    loop fuel (Text.join (',' :: newline indent) (items.map written) ++ closing) =
      some (items, rest) := by
  induction items generalizing fuel with
  | nil => contradiction
  | cons a items ih =>
    obtain ⟨fuel, rfl⟩ : ∃ k, fuel = k + 1 := ⟨fuel - 1, by omega⟩
    cases items with
    | nil =>
      have joined : Text.join (',' :: newline indent) ([a].map written) = written a := by
        simp [Text.join, List.intercalate]
      rw [joined] at enough ⊢
      exact last a (by simp) fuel (by omega)
    | cons b items =>
      simp only [List.map_cons] at enough ih ⊢
      rw [Text.join_cons_cons] at enough ⊢
      simp only [List.length_append, List.length_cons] at enough
      have shorter :
          (Text.join (',' :: newline indent) (written b :: items.map written)).length < fuel := by
        omega
      -- Every item takes one step, and its comma pays for it.
      have remaining := ih (by simp) (fun c there => last c (by simp [there]))
        (fun c there => more c (by simp [there])) shorter
      rw [List.append_assoc, List.append_assoc, List.cons_append,
        more a (by simp) fuel _ (by omega), skip _ _ _ (skipSpace_newline ..), remaining]
      rfl

theorem prettyItems_eq_map (indent : Nat) (items : List Json) :
    prettyItems indent items = items.map (prettyAt (indent + 2)) := by
  induction items with
  | nil => simp [prettyItems]
  | cons item items ih => simp [prettyItems, ih]

/-- A field as it is written. -/
def fieldText (indent : Nat) (e : String × Json) : Text :=
  quoted e.1.toList ++ ": ".toList ++ prettyAt indent e.2

theorem prettyFields_eq_map (indent : Nat) (fields : List (String × Json)) :
    prettyFields indent fields = fields.map (fieldText (indent + 2)) := by
  induction fields with
  | nil => simp [prettyFields]
  | cons e fields ih => simp [prettyFields, fieldText, ih]

theorem readItems_join {items : List Json} (some_item : items ≠ [])
    (each : ∀ j ∈ items, Restored depth j)
    (enough : (Text.join (',' :: newline indent) (items.map (prettyAt indent))).length < fuel)
    (k : Nat) :
    readItems fuel depth (Text.join (',' :: newline indent) (items.map (prettyAt indent))
      ++ (newline k ++ ']' :: rest)) = some (items, rest) := by
  have skip : ∀ fuel s t, skipSpace s = skipSpace t →
      readItems fuel depth s = readItems fuel depth t :=
    fun fuel s t same => readItems_skip same
  refine read_block (readItems · depth ·) some_item skip (fun j there fuel fits => ?_)
    (fun j there fuel t fits => ?_) enough
  · have read := each j there indent fuel (newline k ++ ']' :: rest) fits (delimits_newline k _)
    have closing : isSpace ']' = false := by decide
    simp [readItems, read, skipSpace_closing closing]
  · have read := each j there indent fuel (',' :: t) fits (delimits_comma t)
    have comma : isSpace ',' = false := by decide
    simp [readItems, read, skipSpace_cons comma]

/-- Goes on behind a field. -/
def readAfterField (fuel depth : Nat) (e : String × Json) (t : Text) :
    Option (List (String × Json) × Text) :=
  match skipSpace t with
  | '\x7d' :: more => some ([e], more)
  | ',' :: more => (readFields fuel depth more).map fun (fields, left) => (e :: fields, left)
  | _ => none

theorem readFields_fieldText {e : String × Json} (restored : Restored depth e.2)
    (ends : Delimits rest) (enough : (fieldText indent e).length ≤ fuel) :
    readFields (fuel + 1) depth (fieldText indent e ++ rest) =
      readAfterField fuel depth e rest := by
  have written : fieldText indent e ++ rest =
      '"' :: (e.1.toList.flatMap escape ++ '"' :: ':' :: ' ' :: (prettyAt indent e.2 ++ rest)) := by
    simp [fieldText, quoted]
  have value : readValue fuel depth (' ' :: (prettyAt indent e.2 ++ rest)) = some (e.2, rest) := by
    rw [readValue_skip (skipSpace_space _)]
    refine restored indent fuel rest ?_ ends
    simp only [fieldText, List.length_append] at enough
    omega
  have quote : isSpace '"' = false := by decide
  have colon : isSpace ':' = false := by decide
  rw [written]
  simp only [readFields, skipSpace_cons quote, skipSpace_cons colon, readString_escape, value,
    Option.bind_some, String.ofList_toList]
  rfl

theorem readFields_join {fields : List (String × Json)} (some_field : fields ≠ [])
    (each : ∀ e ∈ fields, Restored depth e.2)
    (enough : (Text.join (',' :: newline indent) (fields.map (fieldText indent))).length < fuel)
    (k : Nat) :
    readFields fuel depth (Text.join (',' :: newline indent) (fields.map (fieldText indent))
      ++ (newline k ++ '\x7d' :: rest)) = some (fields, rest) := by
  have skip : ∀ fuel s t, skipSpace s = skipSpace t →
      readFields fuel depth s = readFields fuel depth t :=
    fun fuel s t same => readFields_skip same
  refine read_block (readFields · depth ·) some_field skip (fun e there fuel fits => ?_)
    (fun e there fuel t fits => ?_) enough
  · have closing : isSpace '\x7d' = false := by decide
    rw [readFields_fieldText (each e there) (delimits_newline k _) fits]
    simp [readAfterField, skipSpace_closing closing]
  · have comma : isSpace ',' = false := by decide
    rw [readFields_fieldText (each e there) (delimits_comma t) fits]
    simp [readAfterField, skipSpace_cons comma]

theorem block_ne_nil (opening closing : Char) (items : List Text) :
    block opening closing indent items ≠ [] := by
  unfold block
  split <;> simp

theorem block_append {opening closing : Char} {items : List Text} (some_item : items ≠ [])
    (rest : Text) :
    block opening closing indent items ++ rest =
      opening :: (newline (indent + 2) ++ (Text.join (',' :: newline (indent + 2)) items
        ++ (newline indent ++ closing :: rest))) := by
  simp [block, some_item]

/-- The items of a block are shorter than what the reader of the block has left for them. -/
theorem length_join_lt {opening closing : Char} {items : List Text} (some_item : items ≠ [])
    (enough : (block opening closing indent items).length ≤ fuel + 1) :
    (Text.join (',' :: newline (indent + 2)) items).length < fuel := by
  simp only [block, List.isEmpty_iff, some_item, if_false, List.length_cons,
    List.length_append] at enough
  omega

/-- An item does not start like the end of its array. -/
theorem skipSpace_ne_of_readItems {r : List Json × Text} (read : readItems fuel depth t = some r)
    (more : Text) : skipSpace t ≠ ']' :: more := by
  intro closing
  have no_number : readNumber (']' :: more) = none := by
    rw [Option.eq_none_iff_forall_not_mem]
    intro r read
    obtain ⟨c, _, text, start⟩ := head_of_readNumber read
    obtain rfl : ']' = c := congrArg (List.headD · ']') text
    revert start
    decide
  match fuel with
  | 0 => simp [readItems] at read
  | 1 => simp [readItems, readValue] at read
  | fuel + 2 => simp [readItems, readValue, closing, no_number] at read

theorem skipSpace_ne_of_readFields {r : List (String × Json) × Text}
    (read : readFields fuel depth t = some r) (more : Text) : skipSpace t ≠ '\x7d' :: more := by
  intro closing
  cases fuel with
  | zero => simp [readFields] at read
  | succ fuel => simp [readFields, closing] at read

theorem restored_arr {items : List Json} (each : ∀ j ∈ items, Restored depth j) :
    Restored (depth + 1) (.arr items) := by
  have opening : isSpace '[' = false := by decide
  have closing : isSpace ']' = false := by decide
  refine .of_step (fun indent => by simp [prettyAt, block_ne_nil]) fun indent fuel rest enough _ =>
    ?_
  by_cases empty : items = []
  · subst empty
    simp [prettyAt, prettyItems, block, readValue, skipSpace_cons opening, skipSpace_cons closing]
  · have written : items.map (prettyAt (indent + 2)) ≠ [] := by simpa using empty
    rw [prettyAt, prettyItems_eq_map] at enough ⊢
    have read : readItems fuel depth _ = some (items, rest) :=
      readItems_join empty each (length_join_lt written enough) indent
    rw [← readItems_skip (skipSpace_newline (indent + 2) _)] at read
    rw [block_append written]
    simp [readValue, skipSpace_cons opening, skipSpace_ne_of_readItems read, read]

theorem restored_obj {fields : List (String × Json)} (each : ∀ e ∈ fields, Restored depth e.2) :
    Restored (depth + 1) (.obj fields) := by
  have opening : isSpace '\x7b' = false := by decide
  have closing : isSpace '\x7d' = false := by decide
  refine .of_step (fun indent => by simp [prettyAt, block_ne_nil]) fun indent fuel rest enough _ =>
    ?_
  by_cases empty : fields = []
  · subst empty
    simp [prettyAt, prettyFields, block, readValue, skipSpace_cons opening, skipSpace_cons closing]
  · have written : fields.map (fieldText (indent + 2)) ≠ [] := by simpa using empty
    rw [prettyAt, prettyFields_eq_map] at enough ⊢
    have read : readFields fuel depth _ = some (fields, rest) :=
      readFields_join empty each (length_join_lt written enough) indent
    rw [← readFields_skip (skipSpace_newline (indent + 2) _)] at read
    rw [block_append written]
    simp [readValue, skipSpace_cons opening, skipSpace_ne_of_readFields read, read]

theorem Readable.restored (readable : Readable depth j) : Restored depth j := by
  -- The depth left drops with each block, so the induction is on the derivation and not on the
  -- value.
  induction readable with
  | null => exact restored_null
  | bool b => exact restored_bool b
  | int fits => exact restored_of_readNumber fun indent => by rw [prettyAt, readNumber_intText fits]
  | float back => exact restored_of_readNumber fun indent => by rw [prettyAt, back]
  | str s => exact restored_str s
  | arr each ih => exact restored_arr ih
  | obj each ih => exact restored_obj ih

/-- A value is read back from its layout. -/
theorem parse?_pretty (readable : Readable maxDepth j) : parse? (pretty j) = some j := by
  have read := readable.restored 0 (2 * (pretty j).length + 1) []
    (by rw [pretty]; omega) Delimits.nil
  rw [List.append_nil] at read
  unfold parse?
  rw [pretty] at read ⊢
  rw [read]
  rfl

end Json

end CodeGauge
