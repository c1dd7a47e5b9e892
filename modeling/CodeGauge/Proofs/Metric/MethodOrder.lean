import CodeGauge.Proofs.Metric.MethodChunks
import CodeGauge.Proofs.Metric.PairCounts
import CodeGauge.Proofs.Source.Plain

/-!
# The order of methods

A class is laid out as a header, field lines and the chunks of its methods (`ClassLayout`). Both
scans of its lines recover each chunk whole, wherever it stands (`ClassLayout.shapeOf_eq`,
`ClassLayout.count_eq`), and counting pairs of methods is symmetric in them
(`Cohesion.sharingCount_perm`). So the lack of cohesion, the tight cohesion and the weighted methods
do not depend on the order of the methods (`ClassLayout.method_order_is_irrelevant`).
-/

namespace CodeGauge

/-! ## Layouts -/

/-- The lines of a method, from its signature to the line on which it ends. -/
structure MethodChunk where
  signature : Text
  body : List Text
  name : Text
  declares : Member.method? (Text.trim signature) = some name
  noField : Member.field? (Text.trim signature) = none
  closes : ClassShape.closes 0 ((signature :: body).map Text.trim) = true
  ends : WeightedMethods.begun.closes ((signature :: body).map Text.trim) = true
  plain : ∀ line ∈ signature :: body, Source.Plain line

namespace MethodChunk

/-- All lines of a method. -/
def lines (m : MethodChunk) : List Text := m.signature :: m.body

/-- The lines of a method, without the white space at their ends. -/
def trimmed (m : MethodChunk) : List Text := m.lines.map Text.trim

/-- What the shape of a class keeps of a method. -/
def member (m : MethodChunk) : Text × Text := (m.name, ClassShape.bodyOf m.trimmed)

end MethodChunk

/-- What stands around the methods of a class: lines before its header, the header, field lines, and
lines after the last method. None of them declares a method. -/
structure ClassLayout where
  preamble : List Text
  header : Text
  fields : List Text
  ending : List Text
  before : ∀ line ∈ preamble, TypeHeader.classLine.occursIn (Text.trim line) = false
  declares : TypeHeader.classLine.occursIn (Text.trim header) = true
  noMethod : ∀ line ∈ preamble ++ header :: fields ++ ending, Member.method? (Text.trim line) = none
  plain : ∀ line ∈ preamble ++ header :: fields ++ ending, Source.Plain line

namespace ClassLayout

/-- The lines of a class with the given methods. -/
def lines (l : ClassLayout) (methods : List MethodChunk) : List Text :=
  l.preamble ++ l.header :: l.fields ++ methods.flatMap MethodChunk.lines ++ l.ending

/-- The names of the instance fields, which are found before the methods. -/
def fieldNames (l : ClassLayout) : List Text :=
  (ClassShape.progress (l.fields.map Text.trim)).shape.fields

variable {l : ClassLayout} {methods others : List MethodChunk} {s t : Text}

theorem plain_lines (l : ClassLayout) (methods : List MethodChunk) :
    ∀ line ∈ l.lines methods, Source.Plain line := by
  intro line there
  simp only [lines, List.mem_append] at there
  rcases there with (there | there) | there
  · exact l.plain line (List.mem_append_left _ (List.mem_append.2 there))
  · obtain ⟨m, -, inside⟩ := List.mem_flatMap.1 there
    exact m.plain line inside
  · exact l.plain line (List.mem_append_right _ there)

/-- The lines that both scans see. -/
theorem trimmedLines_eq (laid : Text.lines s = l.lines methods) :
    Text.trimmedLines (Source.stripped s) = l.preamble.map Text.trim ++ Text.trim l.header ::
      (l.fields.map Text.trim ++
        (methods.flatMap MethodChunk.trimmed ++ l.ending.map Text.trim)) := by
  have plain : ∀ line ∈ Text.lines s, Source.Plain line := laid ▸ l.plain_lines methods
  rw [Source.stripped_of_plain plain, Text.trimmedLines, laid, lines]
  simp only [List.map_append, List.map_cons, List.map_flatMap, List.append_assoc, List.cons_append]
  rfl

theorem foldl_fields (l : ClassLayout) :
    (l.fields.map Text.trim).foldl ClassShape.readLine ⟨ClassShape.empty, none⟩ =
      ⟨⟨l.fieldNames, []⟩, none⟩ := by
  have none_here : ∀ line ∈ l.fields.map Text.trim, Member.method? line = none := by
    intro line there
    obtain ⟨raw, listed, rfl⟩ := List.mem_map.1 there
    exact l.noMethod raw (by simp [listed])
  obtain ⟨names, found⟩ := ClassShape.exists_foldl_fields none_here []
  rw [fieldNames, ClassShape.progress, ClassShape.empty, found]

theorem noMethod_ending (l : ClassLayout) :
    ∀ line ∈ l.ending.map Text.trim, Member.method? line = none := by
  intro line there
  obtain ⟨raw, listed, rfl⟩ := List.mem_map.1 there
  exact l.noMethod raw (by simp [listed])

/-- The chunks add their methods in turn. -/
theorem foldl_methods {fields : List Text} {known : List (Text × Text)}
    (distinct : (known.map (·.1) ++ methods.map (·.name)).Nodup) :
    (methods.flatMap MethodChunk.trimmed).foldl ClassShape.readLine
      ⟨ClassShape.mk fields known, none⟩ =
        ⟨ClassShape.mk fields (known ++ methods.map MethodChunk.member), none⟩ := by
  induction methods generalizing known with
  | nil => simp
  | cons m rest ih =>
    have unknown : ∀ k ∈ known, k.1 ≠ m.name := fun k there =>
      (List.nodup_append.1 distinct).2.2 k.1 (List.mem_map_of_mem there) m.name (by simp)
    have first : m.trimmed.foldl ClassShape.readLine ⟨ClassShape.mk fields known, none⟩ =
        ⟨ClassShape.mk fields (known ++ [m.member]), none⟩ :=
      ClassShape.foldl_chunk unknown m.declares m.noField m.closes
    rw [List.flatMap_cons, List.foldl_append, first, ih]
    · simp
    · simpa [MethodChunk.member] using distinct

/-- The shape of a class: its fields, and its methods in order. -/
theorem shapeOf_eq (laid : Text.lines s = l.lines methods) (distinct : (methods.map (·.name)).Nodup)
    (some_method : methods ≠ []) :
    Cohesion.shapeOf s = ⟨l.fieldNames, methods.map MethodChunk.member⟩ := by
  have before : ∀ line ∈ l.preamble.map Text.trim, TypeHeader.classLine.occursIn line = false := by
    intro line there
    obtain ⟨raw, listed, rfl⟩ := List.mem_map.1 there
    exact l.before raw listed
  have found : (methods.flatMap MethodChunk.trimmed).foldl ClassShape.readLine
      ⟨ClassShape.mk l.fieldNames [], none⟩ =
        ⟨ClassShape.mk l.fieldNames ([] ++ methods.map MethodChunk.member), none⟩ :=
    foldl_methods (by simpa using distinct)
  rw [Cohesion.shapeOf, ClassShape.ofSource_eq, trimmedLines_eq laid,
    ClassShape.afterHeader_append before l.declares, ClassShape.progress, List.foldl_append,
    foldl_fields, List.foldl_append, found, List.nil_append,
    ClassShape.foldl_between (by simpa using some_method) l.noMethod_ending]

theorem total_methods (methods : List MethodChunk) (rest : List Text) :
    WeightedMethods.total none (methods.flatMap MethodChunk.trimmed ++ rest) =
      (methods.map fun m => WeightedMethods.weightOf m.trimmed).foldr (· + ·)
        (WeightedMethods.total none rest) := by
  induction methods with
  | nil => rfl
  | cons m methods ih =>
    have first :
        WeightedMethods.total none (m.trimmed ++ (methods.flatMap MethodChunk.trimmed ++ rest)) =
          WeightedMethods.weightOf m.trimmed + _ :=
      WeightedMethods.total_chunk (by simp [m.declares]) m.ends _
    rw [List.flatMap_cons, List.append_assoc, first, ih]
    rfl

/-- The weight of a class is that of its methods. -/
theorem count_eq (laid : Text.lines s = l.lines methods) :
    WeightedMethods.count s =
      (methods.map fun m => WeightedMethods.weightOf m.trimmed).foldr (· + ·) 0 := by
  have around : ∀ line ∈ l.preamble.map Text.trim ++ Text.trim l.header :: l.fields.map Text.trim,
      Member.method? line = none := by
    intro line there
    rw [← List.map_cons, ← List.map_append] at there
    obtain ⟨raw, listed, rfl⟩ := List.mem_map.1 there
    exact l.noMethod raw (List.mem_append_left _ listed)
  have nothing : WeightedMethods.total none (l.ending.map Text.trim) = 0 := by
    rw [← List.append_nil (l.ending.map Text.trim), WeightedMethods.total_between l.noMethod_ending]
    rfl
  rw [WeightedMethods.count, trimmedLines_eq laid, ← List.cons_append, ← List.append_assoc,
    WeightedMethods.total_between around, total_methods, nothing]

/-- The lack of cohesion, the tight cohesion and the weighted methods of a class do not depend on
the order of its methods. -/
theorem method_order_is_irrelevant (distinct : (methods.map (·.name)).Nodup)
    (perm : methods.Perm others) (laid : Text.lines s = l.lines methods)
    (laid' : Text.lines t = l.lines others) :
    Cohesion.lack s = Cohesion.lack t ∧ Cohesion.tight s = Cohesion.tight t ∧
      WeightedMethods.count s = WeightedMethods.count t := by
  have weights : WeightedMethods.count s = WeightedMethods.count t := by
    rw [count_eq laid, count_eq laid']
    exact (perm.map _).foldr_eq' (fun _ _ _ _ _ => by omega) 0
  by_cases some_method : methods = []
  · -- Without methods there is only one order.
    subst some_method
    obtain rfl := List.nil_perm.1 perm
    have shape : Cohesion.shapeOf s = Cohesion.shapeOf t := by
      rw [Cohesion.shapeOf, Cohesion.shapeOf, ClassShape.ofSource, ClassShape.ofSource,
        trimmedLines_eq laid, trimmedLines_eq laid']
    exact ⟨by rw [Cohesion.lack, Cohesion.lack, shape],
      by rw [Cohesion.tight, Cohesion.tight, shape], weights⟩
  · have shape := shapeOf_eq laid distinct some_method
    have shape' := shapeOf_eq laid' ((perm.map _).nodup_iff.1 distinct)
      fun none_left => some_method (List.perm_nil.1 (none_left ▸ perm))
    have pairs (use : Text → Pattern) :
        Cohesion.Pairs.ofUsage (Cohesion.usage (Cohesion.shapeOf s) use) =
          Cohesion.Pairs.ofUsage (Cohesion.usage (Cohesion.shapeOf t) use) := by
      rw [shape, shape']
      exact Cohesion.Pairs.ofUsage_perm ((perm.map _).map _)
    have number : (Cohesion.shapeOf s).methods.length = (Cohesion.shapeOf t).methods.length := by
      rw [shape, shape']
      exact (perm.map _).length_eq
    exact ⟨by simp only [Cohesion.lack, number, pairs],
      by simp only [Cohesion.tight, number, pairs], weights⟩

/-- A class with one field that ends after its methods. -/
def smallLayout : ClassLayout where
  preamble := []
  header := "class C \x7b".toList
  fields := [" int a;".toList]
  ending := ["\x7d".toList]
  before := by decide
  declares := by decide +kernel
  noMethod := by decide +kernel
  plain := by decide +kernel

/-- A method with a block inside. -/
def nestedChunk : MethodChunk where
  signature := " f() \x7b".toList
  body := ["if (a) \x7b".toList, "\x7d".toList, "\x7d".toList]
  name := "f".toList
  declares := by decide +kernel
  noField := by decide +kernel
  closes := by decide +kernel
  ends := by decide +kernel
  plain := by decide +kernel

/-- A method on one line. -/
def emptyChunk : MethodChunk where
  signature := "g() \x7b\x7d".toList
  body := []
  name := "g".toList
  declares := by decide +kernel
  noField := by decide +kernel
  closes := by decide +kernel
  ends := by decide +kernel
  plain := by decide +kernel

/-- A method whose body begins on a line of its own. -/
def lateChunk : MethodChunk where
  signature := "h()".toList
  body := ["\x7b a++; \x7d".toList]
  name := "h".toList
  declares := by decide +kernel
  noField := by decide +kernel
  closes := by decide +kernel
  ends := by decide +kernel
  plain := by decide +kernel

/-- Two orders of three methods, with different line ends. -/
theorem small_order_is_irrelevant :
    let s := ClassShape.bodyOf (smallLayout.lines [nestedChunk, emptyChunk, lateChunk])
    let t := Text.join ['\r', '\n'] (smallLayout.lines [lateChunk, nestedChunk, emptyChunk])
    Cohesion.lack s = Cohesion.lack t ∧ Cohesion.tight s = Cohesion.tight t ∧
      WeightedMethods.count s = WeightedMethods.count t := by
  intro s t
  have laid : Text.lines s = smallLayout.lines [nestedChunk, emptyChunk, lateChunk] := by
    decide +kernel
  have laid' : Text.lines t = smallLayout.lines [lateChunk, nestedChunk, emptyChunk] := by
    decide +kernel
  have perm :
      ([nestedChunk, emptyChunk] ++ [lateChunk]).Perm ([lateChunk] ++ [nestedChunk, emptyChunk]) :=
    List.perm_append_comm
  exact method_order_is_irrelevant (by decide) perm laid laid'

end ClassLayout

end CodeGauge
