import CodeGauge.Proofs.Metric.FieldUses
import CodeGauge.Proofs.Metric.MethodOrder
import CodeGauge.Proofs.Number.Digits
import CodeGauge.Proofs.Source.MethodLines
import CodeGauge.Proofs.Source.WholeLines

/-!
# Classes with many methods

A class with any number of empty methods and no field (`numbered`). No two of its methods share a
field, so its tight cohesion is zero and its lack of cohesion is the number of its pairs, as far as
that fits into 32 bits (`many_methods_wrap_around`).
-/

namespace CodeGauge

/-- Lines that are ended one by one are the lines of the text. -/
theorem ClassShape.lines_bodyOf {lines : List Text}
    (whole : ∀ line ∈ lines, '\n' ∉ line ∧ line.getLast? ≠ some '\r') :
    Text.lines (bodyOf lines) = lines := by
  induction lines with
  | nil => rfl
  | cons line rest ih =>
    obtain ⟨⟨oneLine, noReturn⟩, others⟩ := List.forall_mem_cons.1 whole
    have first : Text.lines (line ++ ['\n']) = [line] := by
      have piece : Text.splitWhere (· == '\n') line = [line] :=
        Text.splitWhere_of_forall_not fun c there => by
          simpa using fun same : c = '\n' => oneLine (same ▸ there)
      rw [Text.lines, Text.splitWhere_append_sep rfl, piece]
      simp [Text.splitWhere, Text.closeLines, Text.dropReturn, noReturn]
    rw [bodyOf, List.flatMap_cons, Text.lines_append (by simp [Text.Ended]), first]
    exact congrArg (line :: ·) (ih others)

/-- A field declaration holds a semicolon. -/
theorem Member.field?_eq_none {line : Text} (none_there : ';' ∉ line) : field? line = none := by
  rw [field?, Option.bind_eq_none_iff]
  intro m found
  have occurs : fieldPattern.occursIn line = true := by simp [Pattern.occursIn, found]
  obtain ⟨u, taken, part⟩ := Pattern.infix_of_occursIn occurs
  obtain ⟨_, ends, _, -, rfl⟩ := Pattern.mem_language_append.1 taken
  obtain ⟨_, closed, _, -, rfl⟩ := Pattern.mem_language_append.1 ends
  obtain ⟨_, -, _, semicolon, rfl⟩ := Pattern.mem_language_append.1 closed
  rw [Pattern.mem_language_char.1 semicolon] at part
  exact absurd (part.subset (by simp)) none_there

/-! ## Numbered methods -/

/-- The name of the method with a number. -/
def numberedName (i : Nat) : Text := 'M' :: digitsText i

/-- The signature of the method with a number. -/
def numberedLine (i : Nat) : Text := numberedName i ++ "() \x7b".toList

variable {i j : Nat}

theorem numberedName_injective : Function.Injective numberedName := fun i j same => by
  rw [← readDigits_digitsText i, ← readDigits_digitsText j, (List.cons.inj same).2]

/-- A signature has only these characters. -/
theorem mem_numberedLine {c : Char} (there : c ∈ numberedLine i) :
    c.isDigit = true ∨ c ∈ "M() \x7b".toList := by
  simp only [numberedLine, numberedName, List.cons_append, List.mem_cons, List.mem_append] at there
  rcases there with rfl | digit | sign
  · exact .inr (by decide)
  · exact .inl (isDigit_of_mem_digitsText digit)
  · exact .inr (List.mem_cons_of_mem _ sign)

theorem not_mem_numberedLine {c : Char} (other : c.isDigit = false)
    (absent : c ∉ "M() \x7b".toList) :
    c ∉ numberedLine i := fun there => by
  rcases mem_numberedLine there with digit | listed
  · simp [digit] at other
  · exact absent listed

theorem method?_numberedLine (i : Nat) :
    Member.method? (numberedLine i) = some (numberedName i) := by
  have capital : ∀ w ∈ Java.keywords, w.head? ≠ some 'M' := by decide +kernel
  let l : Member.MethodLine := {
    modifiers := []
    typeParams := none
    returns := none
    name := numberedName i
    params := []
    thrown := []
    opens := true
    known := by simp
    enclosed := by simp
    identifier := by
      have digits : (digitsText i).all (fun d => d.isAlphanum || d == '_' || d == '$') = true :=
        List.all_eq_true.2 fun c there => by
          simp [Char.isAlphanum, isDigit_of_mem_digitsText there]
      exact digits
    unreserved := by
      by_contra reserved
      have listed : numberedName i ∈ Java.keywords := by simpa [Java.isKeyword] using reserved
      exact capital _ listed rfl
    throwable := by simp }
  exact l.method?_text

theorem count_numberedLine :
    (numberedLine i).count '{' = 1 ∧ (numberedLine i).count '}' = 0 := by
  have digits : (digitsText i).count '{' = 0 := List.count_eq_zero.2 fun there =>
    absurd (isDigit_of_mem_digitsText there) (by decide)
  refine ⟨?_, List.count_eq_zero.2 (not_mem_numberedLine (by decide) (by decide))⟩
  simp [numberedLine, numberedName, digits]

theorem trim_numberedLine (i : Nat) : Text.trim (numberedLine i) = numberedLine i :=
  Text.Visible.trim_eq ⟨⟨'M', _, rfl, by decide⟩,
    ⟨numberedName i ++ "() ".toList, '{', by simp [numberedLine], by decide⟩⟩

/-- An empty method whose brace is closed on the next line. -/
def numberedChunk (i : Nat) : MethodChunk where
  signature := numberedLine i
  body := [['}']]
  name := numberedName i
  declares := by rw [trim_numberedLine, method?_numberedLine]
  noField := by
    rw [trim_numberedLine]
    exact Member.field?_eq_none (not_mem_numberedLine (by decide) (by decide))
  closes := by
    have closing : Text.trim ['}'] = ['}'] := by decide
    simp [trim_numberedLine, closing, ClassShape.closes, ClassShape.ends, Braces.ofLine,
      Braces.change, count_numberedLine]
  ends := by
    have closing : Text.trim ['}'] = ['}'] := by decide
    simp [trim_numberedLine, closing, WeightedMethods.Running.closes, WeightedMethods.Running.read,
      WeightedMethods.Running.ended, WeightedMethods.begun, Braces.ofLine, Braces.change,
      count_numberedLine]
  plain := by
    have slash (c : Char) : ¬ ['/', c] <:+: numberedLine i := fun part =>
      not_mem_numberedLine (by decide) (by decide) (part.subset (List.mem_cons_self ..))
    have signature : Source.Plain (numberedLine i) := by
      refine ⟨fun c there => ?_, slash '/', slash '*'⟩
      by_contra quote
      have double : c = '"' ∨ c = '\'' := by
        simpa [Source.isQuote, or_iff_not_imp_left] using quote
      rcases double with rfl | rfl
      · exact not_mem_numberedLine (by decide) (by decide) there
      · exact not_mem_numberedLine (by decide) (by decide) there
    simpa using ⟨signature, (by decide : Source.Plain ['}'])⟩

theorem bare_before :
    ∀ line ∈ ([] : List Text), TypeHeader.classLine.occursIn (Text.trim line) = false := by
  simp

theorem bare_declares : TypeHeader.classLine.occursIn (Text.trim "class A \x7b".toList) = true := by
  decide +kernel

theorem bare_noMethod : ∀ line ∈ ["class A \x7b".toList, "\x7d".toList],
    Member.method? (Text.trim line) = none := by
  decide +kernel

theorem bare_plain : ∀ line ∈ ["class A \x7b".toList, "\x7d".toList], Source.Plain line := by
  decide +kernel

/-- A class without fields. -/
def bareLayout : ClassLayout where
  preamble := []
  header := "class A \x7b".toList
  fields := []
  ending := ["\x7d".toList]
  before := bare_before
  declares := bare_declares
  noMethod := bare_noMethod
  plain := bare_plain

/-- The lines of a class with so many empty methods. -/
def numberedLines (n : Nat) : List Text := bareLayout.lines ((List.range n).map numberedChunk)

/-- A class with so many empty methods. -/
def numbered (n : Nat) : Text := ClassShape.bodyOf (numberedLines n)

theorem lines_numbered (n : Nat) : Text.lines (numbered n) = numberedLines n := by
  refine ClassShape.lines_bodyOf fun line there => ?_
  simp only [numberedLines, ClassLayout.lines, bareLayout, List.mem_append, List.mem_flatMap,
    List.mem_map, List.nil_append, List.mem_cons, List.not_mem_nil, or_false] at there
  rcases there with (rfl | ⟨_, ⟨i, -, rfl⟩, inside⟩) | rfl
  · decide
  · simp only [MethodChunk.lines, numberedChunk, List.mem_cons, List.not_mem_nil,
      or_false] at inside
    rcases inside with rfl | rfl
    · exact ⟨not_mem_numberedLine (by decide) (by decide), by simp [numberedLine]⟩
    · decide
  · decide

/-- The class has the methods, and none of them uses a field. -/
theorem shapeOf_numbered (n : Nat) :
    (Cohesion.shapeOf (numbered (n + 1))).methods.length = n + 1 ∧
      (Cohesion.shapeOf (numbered (n + 1))).fields = [] := by
  have distinct : (((List.range (n + 1)).map numberedChunk).map (·.name)).Nodup := by
    rw [List.map_map]
    exact List.nodup_range.map numberedName_injective
  rw [ClassLayout.shapeOf_eq (lines_numbered (n + 1)) distinct (by simp)]
  refine ⟨by simp, ?_⟩
  rfl

namespace Cohesion

theorem sharingCount_usage_of_no_field {shape : ClassShape} (bare : shape.fields = [])
    (use : Text → Pattern) : sharingCount (usage shape use) = 0 := by
  refine sharingCount_of_unused fun left there => ?_
  obtain ⟨method, -, rfl⟩ := List.mem_map.1 there
  simp [bare]

/-- Among 92683 methods without a field no pair is connected, and there are more than 4294967296
pairs. The lack of cohesion is not their number but what is left of it in 32 bits. -/
theorem many_methods_wrap_around :
    let source := numbered 92683
    (shapeOf source).methods.length = 92683 ∧ Nat.choose 92683 2 = 4295022903 ∧
      (tight source).value = 0 ∧ lack source = 55607 := by
  intro source
  have methods : (shapeOf source).methods.length = 92683 := (shapeOf_numbered 92682).1
  have bare : (shapeOf source).fields = [] := (shapeOf_numbered 92682).2
  have pairs : Nat.choose 92683 2 = 4295022903 := by rw [Nat.choose_two_right]
  have none := sharingCount_usage_of_no_field bare
  have counted (use : Text → Pattern) :
      Pairs.ofUsage (usage (shapeOf source) use) = ⟨0, 55607⟩ := by
    rw [Pairs.ofUsage_eq, none, length_usage, methods, pairs]
    rfl
  refine ⟨methods, pairs, ?_, ?_⟩
  · rw [tight, if_neg (by omega), counted, Share.value]
    simp
  · rw [lack, if_neg (by omega), counted]
    rfl

end Cohesion

end CodeGauge
