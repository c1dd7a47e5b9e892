import CodeGauge.Proofs.Metric.DecisionPoints
import CodeGauge.Proofs.Metric.MethodChunks
import CodeGauge.Proofs.Source.NextLine

/-!
# Weights of parts

The scan for methods goes from line to line with the method that is running, if there is one
(`total_append`). Where none is running, it starts afresh, so the methods of a source and of what
follows in the next line weigh on their own. The lines of a method (`IsMethod`) are told by their
braces alone, and weigh what their keywords and operators say (`weightOf_eq`).
-/

namespace CodeGauge

namespace WeightedMethods

/-! ## Lines one after the other -/

/-- The method that is running after a line, given the one before it. -/
def runningAfter (running : Option Running) (line : Text) : Option Running :=
  ((methodOn running line).map (·.read line)).filter (!·.ended)

/-- What the method weighs that ends on a line, if there is one. -/
def endingWeight (running : Option Running) (line : Text) : Nat :=
  (((methodOn running line).map (·.read line)).filter (·.ended)).elim 0 Running.weight

theorem total_cons (running : Option Running) (line : Text) (rest : List Text) :
    total running (line :: rest) = endingWeight running line +
      total (runningAfter running line) rest := by
  rw [total, endingWeight, runningAfter]
  cases methodOn running line with
  | none => simp
  | some m => by_cases ends : (m.read line).ended <;> simp [ends, Option.filter]

theorem total_append (running : Option Running) (lines more : List Text) :
    total running (lines ++ more) = total running lines +
      total (lines.foldl runningAfter running) more := by
  induction lines generalizing running with
  | nil => simp [total]
  | cons line lines ih =>
    rw [List.cons_append, total_cons, total_cons, ih, List.foldl_cons, Nat.add_assoc]

/-- The method that is running at the end of a source. -/
def openMethod (source : Text) : Option Running :=
  (Text.trimmedLines (Source.stripped source)).foldl runningAfter none

theorem count_nextLine {a : Text} (ends : (Source.regionAfter .code a).spansLines = false)
    (closed : openMethod a = none) (b : Text) : count (a ++ '\n' :: b) = count a + count b := by
  obtain ⟨gap, blank, lines⟩ := Source.trimmedLines_nextLine ends b
  have nothing : ∀ line ∈ gap, Member.method? line = none := by
    have empty : Member.method? [] = none := by decide
    rcases blank with rfl | rfl <;> simp [empty]
  rw [count, lines, total_append]
  show _ + total (openMethod a) _ = _
  rw [closed, total_between nothing]
  rfl

/-! ## The lines of a method -/

/-- Whether braces are opened in these lines and no fewer closed. -/
def Closed (lines : List Text) : Prop :=
  '{' ∈ lines.flatten ∧ lines.flatten.count '{' ≤ lines.flatten.count '}'

instance (lines : List Text) : Decidable (Closed lines) := inferInstanceAs (Decidable (_ ∧ _))

/-- The lines of a method: the first one is its signature, and the last one is the first on which
all braces are closed. -/
structure IsMethod (lines : List Text) : Prop where
  declares : ∃ signature ∈ lines.head?, (Member.method? signature).isSome = true
  closed : Closed lines
  open_before : ∀ n < lines.length, ¬ Closed (lines.take n)

theorem Running.ended_iff (m : Running) : m.ended = true ↔ m.opened = true ∧ m.depth ≤ 0 := by
  rw [Running.ended, Bool.and_eq_true]
  exact and_congr_right fun _ => decide_eq_true_iff

theorem ended_foldl_iff (m : Running) (lines : List Text) :
    (lines.foldl Running.read m).ended = true ↔
      (m.opened = true ∨ '{' ∈ lines.flatten) ∧
        m.depth + lines.flatten.count '{' ≤ lines.flatten.count '}' := by
  induction lines generalizing m with
  | nil => simpa using m.ended_iff
  | cons line lines ih =>
    rw [List.foldl_cons, ih]
    simp only [Running.read, Braces.ofLine, Braces.change, Bool.or_eq_true, decide_eq_true_eq,
      List.count_pos_iff, List.flatten_cons, List.mem_append, List.count_append, or_assoc]
    refine and_congr_right fun _ => ?_
    omega

theorem ended_begun_iff (lines : List Text) :
    (lines.foldl Running.read begun).ended = true ↔ Closed lines := by
  rw [ended_foldl_iff, Closed]
  simp [begun]

/-- A running method that ends with these lines and not before is closed by the last one. -/
theorem closes_of_ended {m : Running} {lines : List Text} (some_line : lines ≠ [])
    (ends : (lines.foldl Running.read m).ended = true)
    (runs : ∀ n, 0 < n → n < lines.length → ¬ ((lines.take n).foldl Running.read m).ended = true) :
    m.closes lines = true := by
  induction lines generalizing m with
  | nil => contradiction
  | cons line lines ih =>
    rw [Running.closes]
    cases lines with
    | nil => exact if_pos ends
    | cons next lines =>
      have going : ¬ (m.read line).ended = true := runs 1 (by simp) (by simp)
      rw [if_neg going]
      refine ih (by simp) ends fun n _ short => ?_
      exact runs (n + 1) (by simp) (by simpa using short)

theorem foldl_of_closes {m : Running} {lines : List Text} (closed : m.closes lines = true) :
    lines.foldl runningAfter (some m) = none := by
  induction lines generalizing m with
  | nil => simp [Running.closes] at closed
  | cons line lines ih =>
    rw [Running.closes] at closed
    rw [List.foldl_cons]
    by_cases ends : (m.read line).ended = true
    · obtain rfl : lines = [] := by simpa [ends] using closed
      simp [runningAfter, methodOn, Option.filter, ends]
    · have going : runningAfter (some m) line = some (m.read line) := by
        simp [runningAfter, methodOn, Option.filter, ends]
      rw [going]
      exact ih (by simpa [ends] using closed)

theorem IsMethod.closes {lines : List Text} (h : IsMethod lines) : begun.closes lines = true := by
  have some_line : lines ≠ [] := by
    rintro rfl
    simpa using h.declares
  refine closes_of_ended some_line ((ended_begun_iff _).2 h.closed) fun n _ short ends => ?_
  exact h.open_before n short ((ended_begun_iff _).1 ends)

/-- After the lines of a method none is running. -/
theorem IsMethod.foldl_runningAfter {lines : List Text} (h : IsMethod lines) :
    lines.foldl runningAfter none = none := by
  obtain ⟨signature, first, declares⟩ := h.declares
  obtain ⟨body, rfl⟩ := List.head?_eq_some_iff.1 first
  have begins : runningAfter none signature = runningAfter (some begun) signature := by
    simp [runningAfter, methodOn, declares]
  rw [List.foldl_cons, begins]
  exact foldl_of_closes h.closes

theorem weight_foldl (m : Running) (lines : List Text) :
    (lines.foldl Running.read m).weight = m.weight + lines.countP branch.occursIn +
      lines.foldr (fun line n => logicalOperator.count line + n) 0 := by
  induction lines generalizing m with
  | nil => rfl
  | cons line lines ih =>
    rw [List.foldl_cons, ih, List.countP_cons, List.foldr_cons]
    simp only [Running.read, lineWeight]
    omega

/-- A method weighs one, and one more for each line with a branching keyword and for each logical
operator. -/
theorem weightOf_eq (lines : List Text) :
    weightOf lines = 1 + lines.countP branch.occursIn +
      logicalOperator.count (Text.join ['\n'] lines) := by
  have apart := apart_logicalOperator '\n' [] (by decide)
  rw [weightOf, weight_foldl, apart.count_join rfl rfl (by simp)]
  rfl

/-- The methods of a source that ends outside block comments and text blocks and outside methods,
and those of what follows in the next line, weigh on their own. Wherever the lines of a method stand
outside other methods, they add one, the number of those with a branching keyword, and the number of
logical operators in them, and none is running after them. -/
theorem parts_weigh_on_their_own :
    (∀ a b, (Source.regionAfter .code a).spansLines = false → openMethod a = none →
      count (a ++ '\n' :: b) = count a + count b) ∧
    ∀ source before method after,
      Text.trimmedLines (Source.stripped source) = before ++ (method ++ after) →
      before.foldl runningAfter none = none → IsMethod method →
      (before ++ method).foldl runningAfter none = none ∧
        count source = total none before +
          (1 + method.countP branch.occursIn + logicalOperator.count (Text.join ['\n'] method)) +
          total none after := by
  refine ⟨fun a b ends closed => count_nextLine ends closed b, ?_⟩
  intro source before method after lines outside chunk
  refine ⟨by rw [List.foldl_append, outside, chunk.foldl_runningAfter], ?_⟩
  obtain ⟨signature, first, declares⟩ := chunk.declares
  obtain ⟨body, rfl⟩ := List.head?_eq_some_iff.1 first
  rw [count, lines, total_append, outside, total_chunk declares chunk.closes, weightOf_eq]
  omega

/-- A method whose brace is on a line of its own, and one on a single line behind it. The first
source ends in a comment. -/
theorem two_methods_weigh_on_their_own :
    let a :=
      "class A \x7b\nvoid f()\n\x7b\n if (x && y) \x7b \x7d // \x7d\n\x7d\n// /* \"\"\"".toList
    let b := "int g(int n) \x7b do \x7b n--; \x7d while (n > 0 || h()); \x7d\n\x7d".toList
    let header := "class A \x7b".toList
    let method := ["void f()", "\x7b", "if (x && y) \x7b \x7d", "\x7d"].map String.toList
    ((Source.regionAfter .code a).spansLines = false ∧ openMethod a = none ∧
      count (a ++ '\n' :: b) = count a + count b) ∧
    (Text.trimmedLines (Source.stripped a) = [header] ++ (method ++ []) ∧ IsMethod method ∧
      count a = 0 + (1 + 1 + 1) + 0) := by
  intro a b header method
  have ends : (Source.regionAfter .code a).spansLines = false := by decide +kernel
  have chunk : IsMethod method :=
    ⟨⟨_, rfl, by decide +kernel⟩, by decide +kernel, by decide +kernel⟩
  have lines : Text.trimmedLines (Source.stripped a) = [header] ++ (method ++ []) := by
    decide +kernel
  have outside : [header].foldl runningAfter none = none := by decide +kernel
  have nothing : total none [header] = 0 := by decide +kernel
  have branches : method.countP branch.occursIn = 1 := by decide +kernel
  have operators : logicalOperator.count (Text.join ['\n'] method) = 1 := by decide +kernel
  obtain ⟨behind, weight⟩ := parts_weigh_on_their_own.2 a [header] method [] lines outside chunk
  have closed : openMethod a = none := by
    rw [openMethod, lines, List.append_nil method]
    exact behind
  rw [nothing, branches, operators, total] at weight
  exact ⟨⟨ends, closed, parts_weigh_on_their_own.1 a b ends closed⟩, lines, chunk, weight⟩

end WeightedMethods

end CodeGauge
