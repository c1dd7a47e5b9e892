import CodeGauge.Proofs.Metric.MethodWeights
import CodeGauge.Proofs.Source.MethodSegments

/-!
# Where methods end

Methods are told apart twice. To be weighed, a method ends on the first line behind which its
braces, once one has been opened, are balanced again. For the shape of the class, one has to close
on that line, and none needs to have been opened. Both find the same end exactly if no line closes a
brace before the first line that opens one (`method_ends_agree_iff`), as long as the line of the
signature is not taken for a field (`field_hides_a_method`).

The two scans are followed side by side. Their depths are the same, and as long as the method goes
on, a brace is open exactly if one has been opened (`Running.Steady`). A line that opens a brace or
closes none keeps it so, and the two tests give the same answer on it.
-/

namespace CodeGauge

namespace Scan

variable {σ : Type} {step : σ → Text → σ} {done : σ → Bool} {s t : σ} {line : Text}

/-- The place of the first of these lines behind which a scan is done. -/
def firstDone (step : σ → Text → σ) (done : σ → Bool) (s : σ) (lines : List Text) : Option Nat :=
  (List.range lines.length).find? fun i => done ((lines.take (i + 1)).foldl step s)

theorem firstDone_cons (s : σ) (line : Text) (rest : List Text) :
    firstDone step done s (line :: rest) =
      if done (step s line) then some 0
        else (firstDone step done (step s line) rest).map (· + 1) := by
  rw [firstDone, List.length_cons, List.range_succ_eq_map, List.find?_cons, List.find?_map]
  cases first : done (step s line) with
  | true => simp [first]
  | false =>
    simp only [List.take_succ_cons, List.take_zero, List.foldl_cons, List.foldl_nil, first]
    rfl

/-- Where the first line leads to the same state, the scan is done on the same line. -/
theorem firstDone_congr (same : step s line = step t line) (rest : List Text) :
    firstDone step done s (line :: rest) = firstDone step done t (line :: rest) := by
  rw [firstDone_cons, firstDone_cons, same]

end Scan

namespace Braces

/-- Whether no line closes a brace before the first line that opens one. If none opens one, none
closes one. -/
def OpenFirst (lines : List Text) : Prop :=
  ∀ line ∈ lines.takeWhile (!·.contains '{'), '}' ∉ line

instance (lines : List Text) : Decidable (OpenFirst lines) :=
  inferInstanceAs (Decidable (∀ line ∈ _, _))

theorem openFirst_cons (line : Text) (rest : List Text) :
    OpenFirst (line :: rest) ↔ '{' ∈ line ∨ '}' ∉ line ∧ OpenFirst rest := by
  by_cases opens : '{' ∈ line <;> simp [OpenFirst, opens]

end Braces

/-! ## Shapes -/

namespace ClassShape

variable {p : Progress ClassShape} {name line : Text} {depth : Int} {lines : List Text} {i : Nat}

/-- The place of the line on which the open method ends, or the one that begins on the first
line. -/
def methodEnd? (p : Progress ClassShape) (lines : List Text) : Option Nat :=
  Scan.firstDone readLine (·.current.isNone) p lines

theorem ends_iff (depth : Int) (line : Text) :
    ends depth (Braces.ofLine line) = true ↔ depth ≤ 0 ∧ '}' ∈ line := by
  simp [ends, Braces.ofLine, List.count_pos_iff]

theorem readLine_open (current : p.current = some ⟨name, depth⟩) (line : Text) :
    readLine p line = readBody p ⟨name, depth⟩ line := by
  rw [readLine, current]

theorem current_readBody (p : Progress ClassShape) (name : Text)
    (going : ¬ ends (depth + (Braces.ofLine line).change) (Braces.ofLine line) = true) :
    (readBody p ⟨name, depth⟩ line).current = some ⟨name, depth + (Braces.ofLine line).change⟩ :=
  if_neg going

theorem methodEnd?_open (current : p.current = some ⟨name, depth⟩) (line : Text)
    (rest : List Text) :
    methodEnd? p (line :: rest) =
      if ends (depth + (Braces.ofLine line).change) (Braces.ofLine line) then some 0
      else (methodEnd? (readBody p ⟨name, depth⟩ line) rest).map (· + 1) := by
  rw [methodEnd?, Scan.firstDone_cons, readLine_open current, readBody]
  split <;> simp_all [methodEnd?]

/-- A line with a signature begins a method, unless it is taken for a field before the first
method. -/
theorem methodOn_of_method? (outside : p.current = none)
    (declares : Member.method? line = some name)
    (no_field : p.shape.methods = [] → Member.field? line = none) :
    p.methodOn line = some name := by
  rw [Progress.methodOn, outside]
  simp only
  rw [if_neg, declares]
  rintro ⟨first, field⟩
  simp [no_field first] at field

/-- A line that begins a method is read as one of a method that is open at depth zero. -/
theorem readLine_signature (outside : p.current = none) (begins : p.methodOn line = some name) :
    readLine p line = readLine ⟨p.shape, some ⟨name, 0⟩⟩ line := by
  rw [readLine_of_methodOn begins, Progress.depth, outside]
  rfl

/-- The lines up to the end of a method are added to its body. -/
theorem foldl_of_methodEnd? (current : p.current = some ⟨name, depth⟩)
    (ended : methodEnd? p lines = some i) :
    (lines.take (i + 1)).foldl readLine p =
      ⟨(lines.take (i + 1)).foldl (·.addLine name ·) p.shape, none⟩ := by
  induction lines generalizing p depth i with
  | nil => simp [methodEnd?, Scan.firstDone] at ended
  | cons line rest ih =>
    rw [methodEnd?_open current] at ended
    rw [List.take_succ_cons, List.foldl_cons, List.foldl_cons, readLine_open current]
    split at ended
    · next closes =>
      obtain rfl := Option.some.inj ended
      simp [readBody, closes, Notes.addLine]
    · next going =>
      obtain ⟨j, later, rfl⟩ := Option.map_eq_some_iff.1 ended
      exact ih (current_readBody p name going) later

end ClassShape

/-! ## Weights -/

namespace WeightedMethods

variable {m : Running} {line : Text} {lines : List Text} {i : Nat}

/-- The place of the line on which the running method ends, or the one that begins on the first
line. -/
def methodEnd? (running : Option Running) (lines : List Text) : Option Nat :=
  Scan.firstDone runningAfter Option.isNone running lines

theorem methodEnd?_running (m : Running) (line : Text) (rest : List Text) :
    methodEnd? (some m) (line :: rest) =
      if (m.read line).ended then some 0
        else (methodEnd? (some (m.read line)) rest).map (· + 1) := by
  rw [methodEnd?, Scan.firstDone_cons]
  cases ended : (m.read line).ended <;> simp [runningAfter, methodOn, Option.filter,
    ended, methodEnd?]

/-- A line that begins a method is read for one that has just begun. -/
theorem runningAfter_signature (declares : (Member.method? line).isSome = true) :
    runningAfter none line = runningAfter (some begun) line := by
  simp [runningAfter, methodOn, declares]

theorem closes_of_methodEnd? (ended : methodEnd? (some m) lines = some i) :
    m.closes (lines.take (i + 1)) = true := by
  induction lines generalizing m i with
  | nil => simp [methodEnd?, Scan.firstDone] at ended
  | cons line rest ih =>
    rw [methodEnd?_running] at ended
    rw [List.take_succ_cons, Running.closes]
    split at ended
    · next closes =>
      obtain rfl := Option.some.inj ended
      rw [if_pos closes]
      rfl
    · next going =>
      obtain ⟨j, later, rfl⟩ := Option.map_eq_some_iff.1 ended
      rw [if_neg going]
      exact ih later

namespace Running

theorem opened_read_iff (m : Running) (line : Text) :
    (m.read line).opened = true ↔ m.opened = true ∨ '{' ∈ line := by
  simp [read, Braces.ofLine, List.count_pos_iff]

theorem depth_read (m : Running) (line : Text) :
    (m.read line).depth = m.depth + (line.count '{' - line.count '}') := rfl

/-- Whether a brace of a method is open exactly if one has been opened, and none has been closed in
excess. -/
structure Steady (m : Running) : Prop where
  nonneg : 0 ≤ m.depth
  opened_iff : m.opened = true ↔ 0 < m.depth

theorem steady_begun : begun.Steady := ⟨by decide, by decide⟩

namespace Steady

variable (h : m.Steady)
include h

/-- Unless a line closes a brace before any is opened, the two tests for the end give the same
answer on it. -/
theorem ended_read (opens : m.opened = true ∨ '{' ∈ line ∨ '}' ∉ line) :
    (m.read line).ended = ClassShape.ends (m.read line).depth (Braces.ofLine line) := by
  rw [Bool.eq_iff_iff, ended_iff, opened_read_iff, ClassShape.ends_iff, m.depth_read]
  constructor
  · rintro ⟨opened | opening, level⟩
    · have inside := h.opened_iff.1 opened
      exact ⟨level, List.count_pos_iff.1 (by omega)⟩
    · have nonneg := h.nonneg
      have some_brace := List.count_pos_iff.2 opening
      exact ⟨level, List.count_pos_iff.1 (by omega)⟩
  · rintro ⟨level, closing⟩
    exact ⟨opens.imp_right fun either => either.resolve_right (not_not_intro closing), level⟩

/-- A line that closes a brace before any is opened ends the method by the one test and not by the
other. -/
theorem ended_read_stray (unopened : ¬ m.opened = true) (no_opening : '{' ∉ line)
    (closing : '}' ∈ line) :
    ¬ (m.read line).ended = true ∧
      ClassShape.ends (m.read line).depth (Braces.ofLine line) = true := by
  rw [ended_iff, opened_read_iff, ClassShape.ends_iff, m.depth_read,
    List.count_eq_zero.2 no_opening]
  have outside := mt h.opened_iff.2 unopened
  exact ⟨fun ended => ended.1.elim unopened no_opening, by omega, closing⟩

theorem read (opens : m.opened = true ∨ '{' ∈ line ∨ '}' ∉ line)
    (going : ¬ (m.read line).ended = true) :
    (m.read line).Steady := by
  by_cases opened : (m.read line).opened = true
  · have inside : 0 < (m.read line).depth :=
      Int.not_le.1 fun level => going ((ended_iff _).2 ⟨opened, level⟩)
    exact ⟨Int.le_of_lt inside, fun _ => inside, fun _ => opened⟩
  · -- Nothing has been opened, so the line has no braces at all.
    obtain ⟨unopened, no_opening⟩ := not_or.1 (mt (m.opened_read_iff line).2 opened)
    have no_closing : '}' ∉ line := (opens.resolve_left unopened).resolve_left no_opening
    have outside := mt h.opened_iff.2 unopened
    have nonneg := h.nonneg
    have level : (m.read line).depth = 0 := by
      rw [m.depth_read, List.count_eq_zero.2 no_opening, List.count_eq_zero.2 no_closing]
      omega
    exact ⟨Int.le_of_eq level.symm, fun opened' => absurd opened' opened, fun inside => by omega⟩

end Steady

end Running

end WeightedMethods

/-! ## Side by side -/

open WeightedMethods ClassShape

/-- From a steady method on, both scans find the same end exactly if a brace has been opened or is
opened before one is closed. -/
theorem methodEnd?_eq_iff {m : Running} (steady : m.Steady) {p : Progress ClassShape} {name : Text}
    (current : p.current = some ⟨name, m.depth⟩) (lines : List Text) :
    WeightedMethods.methodEnd? (some m) lines = ClassShape.methodEnd? p lines ↔
      m.opened = true ∨ Braces.OpenFirst lines := by
  induction lines generalizing m p with
  | nil =>
    simp [WeightedMethods.methodEnd?, ClassShape.methodEnd?, Scan.firstDone, Braces.OpenFirst]
  | cons line rest ih =>
    have depth : m.depth + (Braces.ofLine line).change = (m.read line).depth := rfl
    rw [methodEnd?_running, methodEnd?_open current, Braces.openFirst_cons, depth]
    by_cases opens : m.opened = true ∨ '{' ∈ line ∨ '}' ∉ line
    · rw [← steady.ended_read opens]
      by_cases ended : (m.read line).ended = true
      · have opened : m.opened = true ∨ '{' ∈ line :=
          (m.opened_read_iff line).1 ((Running.ended_iff _).1 ended).1
        simp only [ended, if_true, true_iff]
        exact opened.imp_right .inl
      · have going : ¬ ends (m.read line).depth (Braces.ofLine line) = true :=
          steady.ended_read opens ▸ ended
        have further := ih (steady.read opens ended) (current_readBody p name going)
        rw [if_neg ended, if_neg ended, (Option.map_injective Nat.succ_injective).eq_iff, further,
          m.opened_read_iff]
        grind
    · obtain ⟨unopened, no_opening, closing⟩ : ¬ m.opened = true ∧ '{' ∉ line ∧ '}' ∈ line := by
        simpa only [not_or, not_not] using opens
      obtain ⟨going, ended⟩ := steady.ended_read_stray unopened no_opening closing
      rw [if_neg going, if_pos ended]
      simp [unopened, no_opening, closing]

/-- Where a line outside methods has the signature of one, and is not taken for a field before the
first method, the end of the method as it is weighed and its end in the shape of the class are on
the same line, or there is neither, exactly if no line closes a brace before the first line that
opens one. The lines up to the end are those that are weighed for the method, and those that are
added to its body. -/
theorem method_ends_agree_iff {p : Progress ClassShape} {signature name : Text}
    (outside : p.current = none) (declares : Member.method? signature = some name)
    (no_field : p.shape.methods = [] → Member.field? signature = none) (body : List Text) :
    let lines := signature :: body
    (WeightedMethods.methodEnd? none lines = ClassShape.methodEnd? p lines ↔
      Braces.OpenFirst lines) ∧
    (∀ i, WeightedMethods.methodEnd? none lines = some i →
      total none lines = weightOf (lines.take (i + 1)) + total none (lines.drop (i + 1))) ∧
    (∀ i, ClassShape.methodEnd? p lines = some i →
      lines.foldl readLine p =
        (lines.drop (i + 1)).foldl readLine
          ⟨(lines.take (i + 1)).foldl (·.addLine name ·) p.shape, none⟩) := by
  intro lines
  have begins := methodOn_of_method? outside declares no_field
  have detected : (Member.method? signature).isSome = true := by rw [declares]; rfl
  have weighed : WeightedMethods.methodEnd? none lines =
      WeightedMethods.methodEnd? (some begun) lines :=
    Scan.firstDone_congr (runningAfter_signature detected) body
  have kept : ClassShape.methodEnd? p lines =
      ClassShape.methodEnd? ⟨p.shape, some ⟨name, 0⟩⟩ lines :=
    Scan.firstDone_congr (readLine_signature outside begins) body
  refine ⟨?_, fun i ended => ?_, fun i ended => ?_⟩
  · rw [weighed, kept, methodEnd?_eq_iff Running.steady_begun rfl]
    simp [begun]
  · rw [weighed] at ended
    have whole := total_chunk detected (closes_of_methodEnd? ended) (lines.drop (i + 1))
    rwa [← List.take_succ_cons, List.take_append_drop] at whole
  · rw [kept] at ended
    have read : lines.foldl readLine p = lines.foldl readLine ⟨p.shape, some ⟨name, 0⟩⟩ := by
      rw [List.foldl_cons, List.foldl_cons, readLine_signature outside begins]
    calc lines.foldl readLine p
        = (lines.take (i + 1) ++ lines.drop (i + 1)).foldl readLine
            ⟨p.shape, some ⟨name, 0⟩⟩ := by
          rw [read, List.take_append_drop]
      _ = _ := by rw [List.foldl_append, foldl_of_methodEnd? rfl ended]

/-- A method whose first brace is two lines below its signature, with several braces on a line. A
closing brace that is never opened ends the body of a method, but not its weight. -/
theorem late_brace_ends_agree :
    let p : Progress ClassShape :=
      ⟨⟨["n".toList], [("f".toList, "void f() \x7b \x7d\n".toList)]⟩, none⟩
    let signature := "int f(int k)".toList
    let body := ["", "\x7b if (k > n) \x7b k--; \x7d else \x7b",
      "\x7d while (k > 1) \x7b g(); \x7d \x7d", "void h() \x7b \x7d"].map String.toList
    let stray := ["\x7d".toList]
    (p.current = none ∧ Member.method? signature = some "f".toList ∧ p.shape.methods ≠ []) ∧
    (Braces.OpenFirst (signature :: body) ∧
      WeightedMethods.methodEnd? none (signature :: body) = some 3 ∧
      ClassShape.methodEnd? p (signature :: body) = some 3) ∧
    (¬ Braces.OpenFirst (signature :: stray) ∧
      ClassShape.methodEnd? p (signature :: stray) = some 1 ∧
      WeightedMethods.methodEnd? none (signature :: stray) ≠ some 1) := by
  intro p signature body stray
  have outside : p.current = none := rfl
  have declares : Member.method? signature = some "f".toList := by decide +kernel
  have later : p.shape.methods ≠ [] := by decide +kernel
  have opens : Braces.OpenFirst (signature :: body) := by decide +kernel
  have ended : WeightedMethods.methodEnd? none (signature :: body) = some 3 := by decide +kernel
  have agree := (method_ends_agree_iff outside declares (absurd · later) body).1.2 opens
  have closes : ¬ Braces.OpenFirst (signature :: stray) := by decide +kernel
  have cut : ClassShape.methodEnd? p (signature :: stray) = some 1 := by decide +kernel
  have differ := mt (method_ends_agree_iff outside declares (absurd · later) stray).1.1 closes
  exact ⟨⟨outside, declares, later⟩, ⟨opens, ended, agree.symm.trans ended⟩, closes, cut,
    fun same => differ (same.trans cut.symm)⟩

/-- A first member whose line has the signature of a method and is taken for a field too: the method
is weighed and ends on the second line, but the class has the field instead of the method. -/
theorem field_hides_a_method :
    let signature := "List<A> f() \x7b List<B> x = g();".toList
    let lines := [signature, "\x7d".toList]
    Member.method? signature = some "f".toList ∧ Braces.OpenFirst lines ∧
    WeightedMethods.methodEnd? none lines = some 1 ∧ total none lines = 1 ∧
    lines.foldl readLine ⟨ClassShape.empty, none⟩ = ⟨⟨["x".toList], []⟩, none⟩ ∧
    ClassShape.methodEnd? ⟨ClassShape.empty, none⟩ lines ≠ some 1 := by
  decide +kernel

end CodeGauge
