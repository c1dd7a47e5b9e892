import Mathlib.Tactic.Common
import CodeGauge.Metric.WeightedMethods
import CodeGauge.Proofs.Source.Drafts

/-!
# Methods as chunks of lines

A class is read line by line. A chunk of lines that begins with the signature of a method and on
whose last line the method ends is read as a whole: it adds one method to the shape of the class
(`ClassShape.foldl_chunk`) and its own weight to the weighted methods
(`WeightedMethods.total_chunk`), whatever stands before and after it.
-/

namespace CodeGauge

/-! ## Shapes -/

namespace ClassShape

/-- Whether the last of these lines is the first on which a method of the given depth ends. -/
def closes : Int → List Text → Bool
  | _, [] => false
  | depth, line :: rest =>
    let braces := Braces.ofLine line
    if ends (depth + braces.change) braces then rest.isEmpty
      else closes (depth + braces.change) rest

/-- Lines as they stand in the body of a method. -/
def bodyOf (lines : List Text) : Text := lines.flatMap fun line => line ++ ['\n']

variable {fields : List Text} {methods : List (Text × Text)} {name line body : Text}
  {lines : List Text}

theorem addLine_new (unknown : ∀ m ∈ methods, m.1 ≠ name) (line : Text) :
    addLine ⟨fields, methods⟩ name line = ⟨fields, methods ++ [(name, line ++ ['\n'])]⟩ := by
  have absent : ¬ methods.any (·.1 = name) = true := by
    rw [List.any_eq_true]
    rintro ⟨m, there, same⟩
    exact unknown m there (by simpa using same)
  rw [addLine, if_neg absent]

theorem addLine_last (unknown : ∀ m ∈ methods, m.1 ≠ name) (body line : Text) :
    addLine ⟨fields, methods ++ [(name, body)]⟩ name line =
      ⟨fields, methods ++ [(name, body ++ (line ++ ['\n']))]⟩ := by
  have absent : name ∉ methods.map (·.1) := fun there => by
    obtain ⟨m, listed, same⟩ := List.mem_map.1 there
    exact unknown m listed same
  rw [addLine, if_pos (by simp), List.map_append, map_extend_of_not_mem absent]
  simp [extend]

/-- The lines of an open method up to its end are added to its body. -/
theorem foldl_closes (unknown : ∀ m ∈ methods, m.1 ≠ name) {depth : Int} (body : Text)
    (closed : closes depth lines = true) :
    lines.foldl readLine ⟨mk fields (methods ++ [(name, body)]), some ⟨name, depth⟩⟩ =
      ⟨mk fields (methods ++ [(name, body ++ bodyOf lines)]), none⟩ := by
  induction lines generalizing depth body with
  | nil => simp [closes] at closed
  | cons line rest ih =>
    simp only [closes] at closed
    simp only [List.foldl_cons, readLine, readBody, Notes.addLine, addLine_last unknown]
    split at closed
    · rename_i ended
      obtain rfl : rest = [] := by simpa using closed
      simp [ended, bodyOf]
    · rename_i going
      simp only [going, Bool.false_eq_true, if_false]
      rw [ih _ closed]
      simp [bodyOf]

/-- A chunk adds its method. -/
theorem foldl_chunk (unknown : ∀ m ∈ methods, m.1 ≠ name)
    (declares : Member.method? line = some name) (noField : Member.field? line = none)
    (closed : closes 0 (line :: lines) = true) :
    (line :: lines).foldl readLine ⟨mk fields methods, none⟩ =
      ⟨mk fields (methods ++ [(name, bodyOf (line :: lines))]), none⟩ := by
  have first : readLine ⟨mk fields methods, none⟩ line =
      readLine ⟨mk fields (methods ++ [(name, [])]), some ⟨name, 0⟩⟩ line := by
    simp only [readLine, noField, readSignature, declares, ite_self, readBody, Notes.addLine,
      addLine_new unknown, addLine_last unknown, List.nil_append]
  rw [List.foldl_cons, first, ← List.foldl_cons, foldl_closes unknown [] closed, List.nil_append]

/-- Lines that declare no method are passed over between methods. -/
theorem foldl_between (some_method : methods ≠ [])
    (none_here : ∀ line ∈ lines, Member.method? line = none) :
    lines.foldl readLine ⟨mk fields methods, none⟩ = ⟨mk fields methods, none⟩ := by
  induction lines with
  | nil => rfl
  | cons line rest ih =>
    have passed : readLine ⟨mk fields methods, none⟩ line = ⟨mk fields methods, none⟩ := by
      simp [readLine, Notes.noMethod, some_method, readSignature, none_here line List.mem_cons_self]
    rw [List.foldl_cons, passed, ih fun other there =>
      none_here other (List.mem_cons_of_mem _ there)]

/-- Before the first method only fields are found. -/
theorem exists_foldl_fields (none_here : ∀ line ∈ lines, Member.method? line = none)
    (fields : List Text) :
    ∃ fields', lines.foldl readLine ⟨mk fields [], none⟩ = ⟨mk fields' [], none⟩ := by
  induction lines generalizing fields with
  | nil => exact ⟨fields, rfl⟩
  | cons line rest ih =>
    have further := ih fun other there => none_here other (List.mem_cons_of_mem _ there)
    have one : ∃ fields', readLine ⟨mk fields [], none⟩ line = ⟨mk fields' [], none⟩ := by
      cases found : Member.field? line with
      | none =>
        exact ⟨fields, by simp [readLine, found, readSignature, none_here line List.mem_cons_self]⟩
      | some field =>
        simp only [readLine, Notes.noMethod, found, Notes.addField, addField,
          List.isEmpty_nil, if_true]
        split_ifs
        · exact ⟨fields, rfl⟩
        · exact ⟨fields ++ [field], rfl⟩
    obtain ⟨fields', read⟩ := one
    rw [List.foldl_cons, read]
    exact further fields'

theorem afterHeader_append {preamble : List Text} {header : Text}
    (before : ∀ line ∈ preamble, TypeHeader.classLine.occursIn line = false)
    (declares : TypeHeader.classLine.occursIn header = true) (rest : List Text) :
    afterHeader (preamble ++ header :: rest) = rest := by
  rw [afterHeader, List.dropWhile_append_of_pos (by simpa using before),
    List.dropWhile_cons_of_neg (by simp [declares])]
  rfl

end ClassShape

/-! ## Weights -/

namespace WeightedMethods

/-- Whether the last of these lines is the first on which a running method ends. -/
def Running.closes : Running → List Text → Bool
  | _, [] => false
  | m, line :: rest => if (m.read line).ended then rest.isEmpty else (m.read line).closes rest

/-- What a method weighs that begins on the first of these lines and ends on the last. -/
def weightOf (lines : List Text) : Nat := (lines.foldl Running.read begun).weight

variable {line : Text} {lines : List Text}

theorem total_some (m : Running) (line : Text) (rest : List Text) :
    total (some m) (line :: rest) =
      if (m.read line).ended then (m.read line).weight + total none rest
      else total (some (m.read line)) rest := rfl

theorem total_closes {m : Running} (closed : m.closes lines = true) (rest : List Text) :
    total (some m) (lines ++ rest) = (lines.foldl Running.read m).weight + total none rest := by
  induction lines generalizing m with
  | nil => simp [Running.closes] at closed
  | cons line more ih =>
    simp only [Running.closes] at closed
    rw [List.cons_append, total_some, List.foldl_cons]
    split at closed
    · rename_i ended
      obtain rfl : more = [] := by simpa using closed
      simp [ended]
    · rename_i going
      rw [if_neg going, ih closed]

/-- A chunk adds the weight of its method. -/
theorem total_chunk (declares : (Member.method? line).isSome = true)
    (closed : begun.closes (line :: lines) = true) (rest : List Text) :
    total none (line :: lines ++ rest) = weightOf (line :: lines) + total none rest := by
  have first : total none (line :: lines ++ rest) = total (some begun) (line :: lines ++ rest) := by
    simp only [List.cons_append, total, methodOn, declares, if_true]
  rw [first, total_closes closed, weightOf]

theorem total_between (none_here : ∀ line ∈ lines, Member.method? line = none) (rest : List Text) :
    total none (lines ++ rest) = total none rest := by
  induction lines with
  | nil => rfl
  | cons line more ih =>
    have passed : methodOn none line = none := by simp [methodOn, none_here line List.mem_cons_self]
    rw [List.cons_append, total]
    simp only [passed]
    exact ih fun other there => none_here other (List.mem_cons_of_mem _ there)

end WeightedMethods

end CodeGauge
