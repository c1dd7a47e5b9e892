import Mathlib.Data.List.Induction
import Mathlib.Data.List.Nodup
import CodeGauge.Proofs.Metric.MethodChunks

/-!
# The segments of a class

The lines of a class that are read while a method is open fall into segments: each begins on a line
that declares a method and ends on the first line that closes it, or with the text. What is kept of
a class is accounted for by its segments (`shape_is_accounted_for`): the body of a method is made of
the segments of its name, no line is in two of them, and the fields are those that are declared
before the first one.

The proof follows the lines one by one. The segments that have ended and the one that runs are
carried along (`Trace`), and a line that belongs to a method makes the running segment, or an empty
one, a line longer (`Trace.Fits.next`).
-/

namespace CodeGauge

namespace Braces

theorem change_append (t u : Text) :
    (ofLine (t ++ u)).change = (ofLine t).change + (ofLine u).change := by
  simp only [ofLine, change, List.count_append]
  omega

end Braces

namespace ClassShape

variable {shape : ClassShape} {p : Progress ClassShape} {name line : Text} {read : List Text}

/-! ## Reading a line -/

theorem progress_concat (read : List Text) (line : Text) :
    progress (read ++ [line]) = readLine (progress read) line := by
  simp [progress]

namespace Progress

/-- The method that a line is read for: the open one, or one that begins on the line. -/
def methodOn (p : Progress ClassShape) (line : Text) : Option Text :=
  match p.current with
  | some method => some method.name
  | none => if p.shape.methods = [] ∧ (Member.field? line).isSome then none else Member.method? line

/-- The depth of the open method; a method begins at depth zero. -/
def depth (p : Progress ClassShape) : Int := p.current.elim 0 (·.depth)

end Progress

theorem readLine_of_methodOn (reads : p.methodOn line = some name) :
    readLine p line = readBody p ⟨name, p.depth⟩ line := by
  obtain ⟨shape, current⟩ := p
  cases current with
  | some method =>
    obtain rfl : method.name = name := Option.some.inj reads
    rfl
  | none =>
    simp only [Progress.methodOn] at reads
    split at reads
    · contradiction
    · next field =>
      have signature : readSignature ⟨shape, none⟩ line =
          readBody ⟨shape, none⟩ ⟨name, 0⟩ line := by
        simp [readSignature, reads]
      rw [readLine]
      simp only [Notes.noMethod]
      split
      · next first =>
        have none : Member.field? line = none := by simpa [List.isEmpty_iff.1 first] using field
        rw [none]
        exact signature
      · exact signature

theorem readLine_of_not_methodOn (passes : p.methodOn line = none) :
    p.current = none ∧ readLine p line =
      if p.shape.methods = [] then
        (Member.field? line).elim p fun field => { p with shape := p.shape.addField field }
      else p := by
  obtain ⟨shape, current⟩ := p
  cases current with
  | some method => contradiction
  | none =>
    refine ⟨rfl, ?_⟩
    simp only [Progress.methodOn] at passes
    simp only [readLine, Notes.noMethod, Notes.addField, List.isEmpty_iff]
    split at passes
    · next field =>
      obtain ⟨name, found⟩ := Option.isSome_iff_exists.1 field.2
      simp [field.1, found]
    · next field =>
      have signature : readSignature ⟨shape, none⟩ line = ⟨shape, none⟩ := by
        simp [readSignature, passes]
      split
      · next first =>
        have none : Member.field? line = none := by simpa [first] using field
        simpa [none] using signature
      · exact signature

/-! ## Names and bodies -/

theorem mem_fields_addField {field other : Text} :
    other ∈ (shape.addField field).fields ↔ other ∈ shape.fields ∨ other = field := by
  unfold addField
  split
  · next known =>
    have there : field ∈ shape.fields := by simpa using known
    exact ⟨.inl, fun either => either.elim id fun same => same ▸ there⟩
  · simp

theorem methods_addField (shape : ClassShape) (field : Text) :
    (shape.addField field).methods = shape.methods := by
  unfold addField
  split <;> rfl

theorem fields_addLine (shape : ClassShape) (name line : Text) :
    (shape.addLine name line).fields = shape.fields := by
  simp only [addLine]
  split <;> rfl

/-- A line is added to the body of its method, which is new or known. -/
theorem methods_addLine (shape : ClassShape) (name line : Text) :
    (name ∉ shape.methods.map (·.1) ∧
      (shape.addLine name line).methods = shape.methods ++ [(name, line ++ ['\n'])]) ∨
    (name ∈ shape.methods.map (·.1) ∧ (shape.addLine name line).methods =
      shape.methods.map (extend name line)) := by
  by_cases known : name ∈ shape.methods.map (·.1)
  · refine .inr ⟨known, ?_⟩
    obtain ⟨m, there, same⟩ := List.mem_map.1 known
    have found : shape.methods.any (·.1 = name) = true :=
      List.any_eq_true.2 ⟨m, there, by simpa using same⟩
    simp only [addLine, found, if_true]
  · refine .inl ⟨known, ?_⟩
    have unknown : ∀ m ∈ shape.methods, m.1 ≠ name := fun m there same =>
      known (List.mem_map.2 ⟨m, there, same⟩)
    have added : addLine ⟨shape.fields, shape.methods⟩ name line = _ := addLine_new unknown line
    exact congrArg ClassShape.methods added

theorem names_addLine (shape : ClassShape) (name line : Text) :
    (shape.addLine name line).methods.map (·.1) =
      if name ∈ shape.methods.map (·.1) then shape.methods.map (·.1)
        else shape.methods.map (·.1) ++ [name] := by
  rcases methods_addLine shape name line with ⟨unknown, added⟩ | ⟨known, longer⟩
  · rw [if_neg unknown, added, List.map_append]
    rfl
  · rw [if_pos known, longer, map_extend_names]

/-- If the bodies are known by name, they are after one more line. -/
theorem bodies_addLine {body : Text → Text} (known : ∀ m ∈ shape.methods, m.2 = body m.1)
    (new : name ∉ shape.methods.map (·.1) → body name = []) (line : Text) :
    ∀ m ∈ (shape.addLine name line).methods, m.2 = body m.1 ++ if name = m.1 then line ++ ['\n']
      else [] := by
  intro m there
  rcases methods_addLine shape name line with ⟨unknown, added⟩ | ⟨-, longer⟩
  · rw [added] at there
    rcases List.mem_append.1 there with old | last
    · have other : name ≠ m.1 := fun same => unknown (List.mem_map.2 ⟨m, old, same.symm⟩)
      rw [if_neg other, List.append_nil, known m old]
    · rw [List.mem_singleton.1 last, if_pos rfl, new unknown]
      rfl
  · rw [longer] at there
    obtain ⟨old, member, rfl⟩ := List.mem_map.1 there
    by_cases same : old.1 = name
    · simp [extend, same, known old member]
    · simp [extend, same, Ne.symm same, known old member]

/-- Whether no field and no method is listed twice. -/
structure Distinct (shape : ClassShape) : Prop where
  fields : shape.fields.Nodup
  methods : (shape.methods.map (·.1)).Nodup

theorem Distinct.addField (h : shape.Distinct) (field : Text) :
    (shape.addField field).Distinct := by
  refine ⟨?_, by rw [methods_addField]; exact h.methods⟩
  unfold ClassShape.addField
  split
  · exact h.fields
  · next unknown =>
    have absent : field ∉ shape.fields := by simpa using unknown
    exact List.nodup_append_comm.2 (List.nodup_cons.2 ⟨absent, h.fields⟩)

theorem Distinct.addLine (h : shape.Distinct) (name line : Text) :
    (shape.addLine name line).Distinct := by
  refine ⟨by rw [fields_addLine]; exact h.fields, ?_⟩
  rw [names_addLine]
  split
  · exact h.methods
  · next unknown => exact List.nodup_append_comm.2 (List.nodup_cons.2 ⟨unknown, h.methods⟩)

theorem distinct_progress (lines : List Text) : (progress lines).shape.Distinct := by
  induction lines using List.reverseRecOn with
  | nil => exact ⟨List.nodup_nil, List.nodup_nil⟩
  | append_singleton read line ih =>
    rw [progress_concat]
    cases reads : (progress read).methodOn line with
    | some name =>
      rw [readLine_of_methodOn reads]
      exact ih.addLine name line
    | none =>
      rw [(readLine_of_not_methodOn reads).2]
      split
      · cases Member.field? line with
        | none => exact ih
        | some field => exact ih.addField field
      · exact ih

/-! ## Segments -/

/-- Whether a method that begins on the first of these lines may end on the one at the given place:
no more braces are open behind it than before the method, and one closes on it. -/
def closesAt (lines : List Text) (i : Nat) : Bool :=
  ends (Braces.ofLine (lines.take (i + 1)).flatten).change (Braces.ofLine (lines[i]?.getD []))

theorem closesAt_append {lines : List Text} {i : Nat} (inside : i < lines.length)
    (more : List Text) :
    closesAt (lines ++ more) i = closesAt lines i := by
  rw [closesAt, List.take_append_of_le_length inside, List.getElem?_append_left inside]
  rfl

theorem closesAt_length (lines : List Text) (line : Text) :
    closesAt (lines ++ [line]) lines.length =
      ends ((Braces.ofLine lines.flatten).change + (Braces.ofLine line).change)
      (Braces.ofLine line) := by
  have whole : (lines ++ [line]).take (lines.length + 1) = lines ++ [line] :=
    List.take_of_length_le (by simp)
  rw [closesAt, whole, List.flatten_append, List.flatten_singleton, Braces.change_append,
    List.getElem?_concat_length]
  rfl

/-- Consecutive lines that are read for a method, from the one at `start` to the one before
`stop`. -/
structure Segment where
  name : Text
  start : Nat
  stop : Nat

namespace Segment

/-- The lines of a segment. -/
def lines (s : Segment) (all : List Text) : List Text := (all.take s.stop).drop s.start

/-- Whether the line at a place belongs to a segment. -/
def Covers (s : Segment) (i : Nat) : Prop := s.start ≤ i ∧ i < s.stop

/-- Whether the last line of a segment closes the method. -/
def closed (s : Segment) (all : List Text) : Bool := closesAt (s.lines all) (s.stop - s.start - 1)

/-- Whether a segment lies in these lines, its first line declares the method, and no line but the
last one closes it. -/
structure Of (s : Segment) (all : List Text) : Prop where
  nonempty : s.start < s.stop
  inside : s.stop ≤ all.length
  declares : all[s.start]?.bind Member.method? = some s.name
  going : ∀ i, s.start + i + 1 < s.stop → closesAt (s.lines all) i = false

variable {s : Segment}

theorem lines_append (inside : s.stop ≤ read.length) (more : List Text) :
    s.lines (read ++ more) = s.lines read := by
  rw [lines, List.take_append_of_le_length inside, lines]

theorem Of.append (h : s.Of read) (more : List Text) : s.Of (read ++ more) where
  nonempty := h.nonempty
  inside := Nat.le_trans h.inside (by simp)
  declares := by
    rw [List.getElem?_append_left (Nat.lt_of_lt_of_le h.nonempty h.inside)]
    exact h.declares
  going i earlier := by
    rw [lines_append h.inside]
    exact h.going i earlier

/-- The segment with one more line. -/
def longer (s : Segment) : Segment := { s with stop := s.stop + 1 }

theorem name_longer (s : Segment) : s.longer.name = s.name := rfl

/-- Whether a segment, which may be empty, goes on behind these lines: nothing has closed it. -/
structure Runs (s : Segment) (read : List Text) : Prop where
  stop_eq : s.stop = read.length
  start_le : s.start ≤ s.stop
  declares : s.start < s.stop → read[s.start]?.bind Member.method? = some s.name
  going : ∀ i, s.start + i < s.stop → closesAt (s.lines read) i = false

theorem runs_empty (name : Text) (read : List Text) :
    Runs ⟨name, read.length, read.length⟩ read where
  stop_eq := rfl
  start_le := Nat.le_refl _
  declares some_line := absurd some_line (Nat.lt_irrefl _)
  going i some_line := absurd some_line (by simp)

namespace Runs

variable (h : s.Runs read)
include h

theorem of (nonempty : s.start < s.stop) : s.Of read where
  nonempty := nonempty
  inside := Nat.le_of_eq h.stop_eq
  declares := h.declares nonempty
  going i earlier := h.going i (Nat.lt_of_succ_lt earlier)

theorem length_lines : (s.lines read).length = s.stop - s.start := by
  rw [lines, List.length_drop, List.length_take, h.stop_eq, Nat.min_self]

theorem lines_longer (line : Text) : s.longer.lines (read ++ [line]) = s.lines read ++ [line] := by
  have whole : (read ++ [line]).take s.longer.stop = read ++ [line] :=
    List.take_of_length_le (by simp [longer, h.stop_eq])
  have all : read.take s.stop = read := List.take_of_length_le (by simp [h.stop_eq])
  have before : s.start ≤ read.length := h.stop_eq ▸ h.start_le
  rw [lines, whole, lines, all]
  exact List.drop_append_of_le_length before

theorem closed_longer (line : Text) : s.longer.closed (read ++ [line]) =
    ends ((Braces.ofLine (s.lines read).flatten).change + (Braces.ofLine line).change)
      (Braces.ofLine line) := by
  have last : s.longer.stop - s.longer.start - 1 = (s.lines read).length := by
    rw [h.length_lines]
    show s.stop + 1 - s.start - 1 = _
    omega
  rw [closed, last, h.lines_longer, closesAt_length]

theorem of_longer (declares : s.start = s.stop → Member.method? line = some s.name) :
    s.longer.Of (read ++ [line]) where
  nonempty := Nat.lt_succ_of_le h.start_le
  inside := by simp [longer, h.stop_eq]
  declares := by
    show (read ++ [line])[s.start]?.bind Member.method? = some s.name
    rcases Nat.lt_or_eq_of_le h.start_le with inside | same
    · rw [List.getElem?_append_left (h.stop_eq ▸ inside)]
      exact h.declares inside
    · rw [same, h.stop_eq, List.getElem?_concat_length]
      exact declares same
  going i earlier := by
    have inside : s.start + i < s.stop := Nat.lt_of_succ_lt_succ earlier
    rw [h.lines_longer, closesAt_append (by rw [h.length_lines]; omega)]
    exact h.going i inside

/-- A line that does not close the segment leaves it running. -/
theorem runs_longer (declares : s.start = s.stop → Member.method? line = some s.name)
    (going : s.longer.closed (read ++ [line]) = false) : s.longer.Runs (read ++ [line]) where
  stop_eq := by simp [longer, h.stop_eq]
  start_le := Nat.le_succ_of_le h.start_le
  declares _ := (h.of_longer declares).declares
  going i inside := by
    rcases Nat.lt_or_eq_of_le (Nat.succ_le_of_lt inside) with earlier | last
    · exact (h.of_longer declares).going i earlier
    · have place : s.longer.stop - s.longer.start - 1 = i := by omega
      rwa [closed, place] at going

end Runs

end Segment

/-- What the segments of a name hold, one after the other. -/
def bodyIn (segments : List Segment) (all : List Text) (name : Text) : Text :=
  bodyOf ((segments.filter (·.name = name)).flatMap (·.lines all))

theorem bodyIn_append (segments others : List Segment) (all : List Text) (name : Text) :
    bodyIn (segments ++ others) all name = bodyIn segments all name ++ bodyIn others all name := by
  simp [bodyIn, bodyOf]

theorem bodyIn_more {segments : List Segment} (inside : ∀ s ∈ segments, s.stop ≤ read.length)
    (more : List Text) (name : Text) : bodyIn segments (read ++ more) name =
      bodyIn segments read name := by
  refine congrArg bodyOf (List.flatMap_congr fun s there => ?_)
  exact Segment.lines_append (inside s (List.mem_filter.1 there).1) more

theorem bodyIn_eq_nil {segments : List Segment} (none : ¬ ∃ s ∈ segments, s.name = name)
    (all : List Text) :
    bodyIn segments all name = [] := by
  have filtered : segments.filter (·.name = name) = [] :=
    List.filter_eq_nil_iff.2 fun s there same => none ⟨s, there, by simpa using same⟩
  rw [bodyIn, filtered]
  rfl

/-! ## Following the lines -/

/-- The segments that have ended, and the one that runs. -/
structure Trace where
  ended : List Segment
  running : Option Segment

namespace Trace

variable {tr : Trace} {s : Segment}

/-- All segments, in order. -/
def segments (tr : Trace) : List Segment := tr.ended ++ tr.running.toList

/-- Whether a trace accounts for what has been read. -/
structure Fits (tr : Trace) (read : List Text) : Prop where
  ended : ∀ s ∈ tr.ended, s.Of read ∧ s.closed read = true
  running : ∀ s ∈ tr.running, s.start < s.stop ∧ s.Runs read
  ordered : tr.segments.Pairwise fun a b => a.stop ≤ b.start
  current : (progress read).current =
    tr.running.map fun s => ⟨s.name, (Braces.ofLine (s.lines read).flatten).change⟩
  owners : ∀ i line, read[i]? = some line → ∀ name,
    ((progress (read.take i)).methodOn line = some name ↔
      ∃ s ∈ tr.segments, s.name = name ∧ s.Covers i)
  names : ∀ name, name ∈ (progress read).shape.methods.map (·.1) ↔ ∃ s ∈ tr.segments, s.name = name
  bodies : ∀ m ∈ (progress read).shape.methods, m.2 = bodyIn tr.segments read m.1
  fields : ∀ field, field ∈ (progress read).shape.fields ↔
    ∃ i, read[i]?.bind Member.field? = some field ∧ ∀ s ∈ tr.segments, i < s.start

theorem fits_nil : Fits ⟨[], none⟩ [] := by
  constructor <;> simp [segments, progress, empty]

/-- Every segment of a trace is one of the lines; it is closed, or it runs to their end. -/
theorem Fits.segment (h : tr.Fits read) (there : s ∈ tr.segments) :
    s.Of read ∧ (s.closed read = true ∨ s.stop = read.length) := by
  rcases List.mem_append.1 there with ended | runs
  · exact ⟨(h.ended s ended).1, .inl (h.ended s ended).2⟩
  · obtain ⟨nonempty, going⟩ := h.running s (Option.mem_toList.1 runs)
    exact ⟨going.of nonempty, .inr going.stop_eq⟩

theorem Fits.ended_append (h : tr.Fits read) (more : List Text) :
    ∀ s ∈ tr.ended, s.Of (read ++ more) ∧ s.closed (read ++ more) = true := by
  intro s there
  obtain ⟨whole, closed⟩ := h.ended s there
  refine ⟨whole.append more, ?_⟩
  rw [Segment.closed, Segment.lines_append whole.inside]
  exact closed

/-- The method that an earlier line was read for stays the same. -/
theorem Fits.owners_append (h : tr.Fits read) {i : Nat} {other : Text} (earlier : i < read.length)
    (here : (read ++ [line])[i]? = some other) (name : Text) :
    (progress ((read ++ [line]).take i)).methodOn other = some name ↔
      ∃ s ∈ tr.segments, s.name = name ∧ s.Covers i := by
  rw [List.take_append_of_le_length (Nat.le_of_lt earlier)]
  rw [List.getElem?_append_left earlier] at here
  exact h.owners i other here name

/-- A place of the lines with one more line is an earlier one or the last. -/
theorem cases_of_getElem? {i : Nat} {other : Text} (here : (read ++ [line])[i]? = some other) :
    i < read.length ∨ i = read.length ∧ other = line := by
  rcases Nat.lt_trichotomy i read.length with earlier | rfl | later
  · exact .inl earlier
  · rw [List.getElem?_concat_length] at here
    exact .inr ⟨rfl, (Option.some.inj here).symm⟩
  · rw [List.getElem?_eq_none (by simpa using Nat.succ_le_of_lt later)] at here
    contradiction

theorem lt_length_of_field {i : Nat} {field : Text}
    (here : read[i]?.bind Member.field? = some field) :
    i < read.length := by
  by_contra outside
  rw [List.getElem?_eq_none (Nat.le_of_not_lt outside)] at here
  contradiction

/-- A field is declared on an earlier line or on the last one. -/
theorem exists_field_concat {P : Nat → Prop} {field : Text} :
    (∃ i, (read ++ [line])[i]?.bind Member.field? = some field ∧ P i) ↔
      (∃ i, read[i]?.bind Member.field? = some field ∧ P i) ∨
        Member.field? line = some field ∧ P read.length := by
  constructor
  · rintro ⟨i, here, holds⟩
    obtain ⟨other, found, declares⟩ := Option.bind_eq_some_iff.1 here
    rcases cases_of_getElem? found with earlier | ⟨rfl, rfl⟩
    · rw [List.getElem?_append_left earlier] at here
      exact .inl ⟨i, here, holds⟩
    · exact .inr ⟨declares, holds⟩
  · rintro (⟨i, here, holds⟩ | ⟨declares, holds⟩)
    · exact ⟨i, by rw [List.getElem?_append_left (lt_length_of_field here), here], holds⟩
    · exact ⟨read.length, by rw [List.getElem?_concat_length]; exact declares, holds⟩

/-! ### Lines outside methods -/

/-- No method is known as long as there is no segment. -/
theorem Fits.methods_eq_nil_iff (h : tr.Fits read) :
    (progress read).shape.methods = [] ↔ ∀ s ∈ tr.segments, read.length < s.start := by
  constructor
  · intro none s there
    have known := (h.names s.name).2 ⟨s, there, rfl⟩
    rw [none] at known
    contradiction
  · intro later
    rw [← List.map_eq_nil_iff (f := (·.1)), List.eq_nil_iff_forall_not_mem]
    intro name known
    obtain ⟨s, there, -⟩ := (h.names name).1 known
    have whole := (h.segment there).1
    exact absurd (later s there)
      (Nat.not_lt.2 (Nat.le_of_lt (Nat.lt_of_lt_of_le whole.nonempty whole.inside)))

/-- A line that is read for no method leaves the segments as they are. -/
theorem Fits.pass (h : tr.Fits read) (passes : (progress read).methodOn line = none) :
    tr.Fits (read ++ [line]) := by
  obtain ⟨closed, step⟩ := readLine_of_not_methodOn passes
  rw [← progress_concat] at step
  have none_runs : tr.running = none := by simpa [closed] using h.current.symm
  have inside : ∀ s ∈ tr.segments, s.stop ≤ read.length := fun s there => (h.segment there).1.inside
  have kept : (progress (read ++ [line])).current = none ∧
      (progress (read ++ [line])).shape.methods = (progress read).shape.methods ∧
      ∀ field, field ∈ (progress (read ++ [line])).shape.fields ↔
        field ∈ (progress read).shape.fields ∨
        Member.field? line = some field ∧ (progress read).shape.methods = [] := by
    rw [step]
    split
    · next none_known =>
      cases declared : Member.field? line with
      | none => exact ⟨closed, rfl, by simp⟩
      | some new =>
        refine ⟨closed, methods_addField .., fun field => ?_⟩
        simp only [Option.elim_some, mem_fields_addField, none_known, and_true,
          Option.some.injEq, eq_comm]
    · next known => exact ⟨closed, rfl, by simp [known]⟩
  obtain ⟨current, methods, fields⟩ := kept
  refine ⟨h.ended_append [line],
    by simp [none_runs], h.ordered, by rw [current, none_runs]; rfl, ?_, ?_, ?_, ?_⟩
  · intro i other here name
    rcases cases_of_getElem? here with earlier | ⟨rfl, rfl⟩
    · exact h.owners_append earlier here name
    · rw [List.take_left, passes]
      refine iff_of_false (by simp) ?_
      rintro ⟨s, there, -, covers⟩
      exact absurd (inside s there) (Nat.not_le.2 covers.2)
  · rw [methods]
    exact h.names
  · rw [methods]
    intro m there
    rw [bodyIn_more inside]
    exact h.bodies m there
  · intro field
    rw [fields, h.fields, exists_field_concat, h.methods_eq_nil_iff]

/-! ### Lines of methods -/

theorem exists_mem_concat {segments : List Segment} {P : Segment → Prop} :
    (∃ r ∈ segments ++ [s], P r) ↔ (∃ r ∈ segments, P r) ∨ P s := by
  simp [or_and_right, exists_or]

/-- Whether a line belongs to a segment: the running one, or an empty one that begins with the
line. -/
structure Opens (tr : Trace) (read : List Text) (line : Text) (s : Segment) : Prop where
  runs : s.Runs read
  declares : s.start = s.stop → Member.method? line = some s.name
  depth : (progress read).depth = (Braces.ofLine (s.lines read).flatten).change
  running : tr.running = some s ∨ tr.running = none ∧ s.start = s.stop

theorem Fits.exists_opens (h : tr.Fits read) (reads : (progress read).methodOn line = some name) :
    ∃ s, s.name = name ∧ tr.Opens read line s := by
  have current := h.current
  cases runs : tr.running with
  | some s =>
    rw [runs, Option.map_some] at current
    have named : s.name = name := by simpa [Progress.methodOn, current] using reads
    obtain ⟨nonempty, going⟩ := h.running s runs
    refine ⟨s, named, going, fun same => absurd nonempty (by omega), ?_, .inl runs⟩
    simp [Progress.depth, current]
  | none =>
    rw [runs, Option.map_none] at current
    have declares : Member.method? line = some name := by
      simp only [Progress.methodOn, current] at reads
      split at reads
      · contradiction
      · exact reads
    refine ⟨⟨name, read.length, read.length⟩, rfl, Segment.runs_empty .., fun _ => declares, ?_,
      .inr ⟨runs, rfl⟩⟩
    simp [Progress.depth, current, Segment.lines, Braces.ofLine, Braces.change]

namespace Opens

variable (o : tr.Opens read line s)
include o

theorem segments_eq : tr.segments = tr.ended ++ [s] ∨ tr.segments = tr.ended ∧
    s.start = s.stop := by
  rcases o.running with runs | ⟨runs, empty⟩
  · exact .inl (by rw [segments, runs]; rfl)
  · exact .inr ⟨by rw [segments, runs]; exact List.append_nil _, empty⟩

/-- The earlier lines of the longer segment were in a segment before. -/
theorem covers_iff {i : Nat} (earlier : i < read.length) (name : Text) :
    (∃ r ∈ tr.ended ++ [s.longer], r.name = name ∧ r.Covers i) ↔
      ∃ r ∈ tr.segments, r.name = name ∧ r.Covers i := by
  have stop := o.runs.stop_eq
  have same : s.longer.Covers i ↔ s.Covers i := by
    simp only [Segment.Covers, Segment.longer]
    omega
  simp only [exists_mem_concat, same]
  rcases o.segments_eq with known | ⟨known, empty⟩
  · simp only [known, exists_mem_concat]
    rfl
  · have outside : ¬ s.Covers i := by
      simp only [Segment.Covers]
      omega
    simp [known, outside]

theorem names_iff (name : Text) :
    (∃ r ∈ tr.ended ++ [s.longer], r.name = name) ↔ (∃ r ∈ tr.segments, r.name = name) ∨
      name = s.name := by
  have same : s.longer.name = name ↔ name = s.name := eq_comm
  simp only [exists_mem_concat, same]
  rcases o.segments_eq with known | ⟨known, -⟩
  · simp only [known, exists_mem_concat, eq_comm, or_assoc, or_self]
  · rw [known]

theorem before_iff {i : Nat} (earlier : i < read.length) :
    (∀ r ∈ tr.ended ++ [s.longer], i < r.start) ↔ ∀ r ∈ tr.segments, i < r.start := by
  have stop := o.runs.stop_eq
  simp only [List.forall_mem_append, List.forall_mem_singleton]
  rcases o.segments_eq with known | ⟨known, empty⟩
  · simp only [known, List.forall_mem_append, List.forall_mem_singleton]
    rfl
  · have later : i < s.longer.start := by
      show i < s.start
      omega
    simp [known, later]

/-- The line is one more line of the body of its method. -/
theorem bodyIn_longer (inside : ∀ r ∈ tr.ended, r.stop ≤ read.length) (name : Text) :
    bodyIn (tr.ended ++ [s.longer]) (read ++ [line]) name =
      bodyIn tr.segments read name ++ if s.name = name then line ++ ['\n'] else [] := by
  have last : bodyIn [s.longer] (read ++ [line]) name =
      bodyIn [s] read name ++ if s.name = name then line ++ ['\n'] else [] := by
    by_cases named : s.name = name
    · have same : s.longer.name = name := named
      simp [bodyIn, bodyOf, named, same, o.runs.lines_longer]
    · have other : s.longer.name ≠ name := named
      simp [bodyIn, bodyOf, named, other]
  rw [bodyIn_append, bodyIn_more inside, last, ← List.append_assoc]
  rcases o.segments_eq with known | ⟨known, empty⟩
  · rw [known, bodyIn_append]
  · have nothing : s.lines read = [] := by
      rw [← List.length_eq_zero_iff, o.runs.length_lines]
      omega
    have none : bodyIn [s] read name = [] := by
      by_cases named : s.name = name <;> simp [bodyIn, bodyOf, named, nothing]
    rw [known, none, List.append_nil]

theorem ordered_longer (h : tr.Fits read) :
    (tr.ended ++ [s.longer]).Pairwise fun a b => a.stop ≤ b.start := by
  have ordered := h.ordered
  rcases o.segments_eq with known | ⟨known, empty⟩
  · rw [known, List.pairwise_append] at ordered
    refine List.pairwise_append.2 ⟨ordered.1, List.pairwise_singleton .., ?_⟩
    simpa [Segment.longer] using ordered.2.2
  · rw [known] at ordered
    refine List.pairwise_append.2 ⟨ordered, List.pairwise_singleton .., fun r there last only => ?_⟩
    rw [List.mem_singleton.1 only]
    show r.stop ≤ s.start
    rw [empty, o.runs.stop_eq]
    exact (h.ended r there).1.inside

/-- The line is in the longer segment and in no other. -/
theorem owner_iff (h : tr.Fits read) (name : Text) :
    (∃ r ∈ tr.ended ++ [s.longer], r.name = name ∧ r.Covers read.length) ↔ s.name = name := by
  have none_before : ¬ ∃ r ∈ tr.ended, r.name = name ∧ r.Covers read.length := by
    rintro ⟨r, there, -, covers⟩
    exact absurd (h.ended r there).1.inside (Nat.not_le.2 covers.2)
  have last : s.longer.Covers read.length := by
    rw [← o.runs.stop_eq]
    exact ⟨o.runs.start_le, Nat.lt_succ_self _⟩
  simp only [exists_mem_concat, none_before, last, and_true, false_or, Segment.name_longer]

/-- What is open behind the line. -/
theorem current_concat (reads : (progress read).methodOn line = some s.name) :
    (progress (read ++ [line])).current =
      if s.longer.closed (read ++ [line]) then none
      else some ⟨s.name, (Braces.ofLine (s.longer.lines (read ++ [line])).flatten).change⟩ := by
  have depth : (Braces.ofLine (s.longer.lines (read ++ [line])).flatten).change =
      (progress read).depth + (Braces.ofLine line).change := by
    rw [o.runs.lines_longer, List.flatten_append, List.flatten_singleton,
      Braces.change_append, o.depth]
  rw [progress_concat, readLine_of_methodOn reads, o.runs.closed_longer, ← o.depth, depth]
  rfl

end Opens

/-- The trace behind a line of a segment. -/
def extend (tr : Trace) (s : Segment) (all : List Text) : Trace :=
  if s.longer.closed all then ⟨tr.ended ++ [s.longer], none⟩ else ⟨tr.ended, some s.longer⟩

theorem segments_extend (tr : Trace) (s : Segment) (all : List Text) :
    (tr.extend s all).segments = tr.ended ++ [s.longer] := by
  unfold extend
  split
  · exact List.append_nil _
  · rfl

/-- A line of a method makes its segment longer. -/
theorem Fits.extend (h : tr.Fits read) (o : tr.Opens read line s)
    (reads : (progress read).methodOn line = some s.name) :
    (tr.extend s (read ++ [line])).Fits (read ++ [line]) := by
  have shape : (progress (read ++ [line])).shape = (progress read).shape.addLine s.name line := by
    rw [progress_concat, readLine_of_methodOn reads]
    rfl
  have inside : ∀ r ∈ tr.ended, r.stop ≤ read.length := fun r there => (h.ended r there).1.inside
  have whole := o.runs.of_longer o.declares
  have all := tr.segments_extend s (read ++ [line])
  refine ⟨?_, ?_, ?_, ?_, ?_, ?_, ?_, ?_⟩
  · unfold Trace.extend
    split
    · next closed =>
      exact List.forall_mem_append.2 ⟨h.ended_append [line],
        List.forall_mem_singleton.2 ⟨whole, closed⟩⟩
    · exact h.ended_append [line]
  · unfold Trace.extend
    split
    · simp
    · next going =>
      rintro r runs
      obtain rfl := Option.some.inj runs
      exact ⟨whole.nonempty, o.runs.runs_longer o.declares (by simpa using going)⟩
  · rw [all]
    exact o.ordered_longer h
  · rw [o.current_concat reads, Trace.extend]
    split <;> rfl
  · rw [all]
    intro i other here name
    rcases cases_of_getElem? here with earlier | ⟨rfl, rfl⟩
    · rw [o.covers_iff earlier, h.owners_append earlier here]
    · rw [List.take_left, reads, o.owner_iff h, Option.some_inj]
  · intro name
    rw [all, o.names_iff, ← h.names, shape, names_addLine]
    split
    · next known =>
      exact ⟨.inl, fun either => either.elim id fun same => same ▸ known⟩
    · simp
  · rw [all, shape]
    intro m there
    rw [o.bodyIn_longer inside]
    refine bodies_addLine h.bodies (fun unknown => ?_) line m there
    exact bodyIn_eq_nil (fun found => unknown ((h.names _).2 found)) read
  · intro field
    have later : ¬ ∀ r ∈ tr.ended ++ [s.longer], read.length < r.start := fun starts => by
      have start := starts s.longer (by simp)
      have before := o.runs.start_le
      rw [o.runs.stop_eq] at before
      exact absurd start (Nat.not_lt.2 before)
    rw [all, shape, fields_addLine, h.fields, exists_field_concat]
    simp only [later, and_false, or_false]
    exact exists_congr fun i => and_congr_right fun here =>
      (o.before_iff (lt_length_of_field here)).symm

end Trace

theorem exists_fits (lines : List Text) : ∃ tr : Trace, tr.Fits lines := by
  induction lines using List.reverseRecOn with
  | nil => exact ⟨_, Trace.fits_nil⟩
  | append_singleton read line ih =>
    obtain ⟨tr, fits⟩ := ih
    cases reads : (progress read).methodOn line with
    | none => exact ⟨tr, fits.pass reads⟩
    | some name =>
      obtain ⟨s, rfl, opens⟩ := fits.exists_opens reads
      exact ⟨_, fits.extend opens reads⟩

/-- A line is in no two segments. -/
theorem eq_of_covers {segments : List Segment}
    (ordered : segments.Pairwise fun a b => a.stop ≤ b.start) {i : Nat} {a b : Segment}
    (first : a ∈ segments) (second : b ∈ segments) (covers : a.Covers i) (covers' : b.Covers i) :
    a = b := by
  obtain ⟨m, listed, rfl⟩ := List.getElem_of_mem first
  obtain ⟨n, listed', rfl⟩ := List.getElem_of_mem second
  have apart := List.pairwise_iff_getElem.1 ordered
  simp only [Segment.Covers] at covers covers'
  rcases Nat.lt_trichotomy m n with before | rfl | behind
  · have := apart m n listed listed' before
    omega
  · rfl
  · have := apart n m listed' listed behind
    omega

/-- What is kept of a class is accounted for by segments of its lines. Fields and methods are listed
once. Each segment begins on a line that declares its method, and only its last line closes it,
unless the text ends before. The segments are in order and apart; a line that is read for a method
is in one segment, which has its name, and no other line is in any. The body of a method is what the
segments of its name hold, and there is at least one. The fields are those that are declared before
the first segment. -/
theorem shape_is_accounted_for (source : Text) :
    let lines := afterHeader (Text.trimmedLines source)
    let shape := ofSource source
    shape.fields.Nodup ∧ (shape.methods.map (·.1)).Nodup ∧
    ∃ segments : List Segment,
      (∀ s ∈ segments, s.Of lines ∧ (s.closed lines = true ∨ s.stop = lines.length)) ∧
      segments.Pairwise (fun a b => a.stop ≤ b.start) ∧
      (∀ i name, lines[i]?.bind (progress (lines.take i)).methodOn = some name ↔
        ∃ s ∈ segments, s.name = name ∧ s.Covers i ∧ ∀ r ∈ segments, r.Covers i → r = s) ∧
      (∀ name body, (name, body) ∈ shape.methods ↔
        (∃ s ∈ segments, s.name = name) ∧ body = bodyIn segments lines name) ∧
      (∀ field, field ∈ shape.fields ↔
        ∃ i, lines[i]?.bind Member.field? = some field ∧ ∀ s ∈ segments, i < s.start) := by
  intro lines shape
  have read : shape = (progress lines).shape := ofSource_eq source
  rw [read]
  have distinct := distinct_progress lines
  obtain ⟨tr, fits⟩ := exists_fits lines
  refine ⟨distinct.fields, distinct.methods, tr.segments, fun s => fits.segment, fits.ordered,
    fun i name => ?_, fun name body => ?_, fits.fields⟩
  · constructor
    · intro reads
      obtain ⟨line, here, reads⟩ := Option.bind_eq_some_iff.1 reads
      obtain ⟨s, there, named, covers⟩ := (fits.owners i line here name).1 reads
      exact ⟨s, there, named, covers, fun r other covers' =>
        eq_of_covers fits.ordered other there covers' covers⟩
    · rintro ⟨s, there, named, covers, -⟩
      have inside : i < lines.length := Nat.lt_of_lt_of_le covers.2 (fits.segment there).1.inside
      have here : lines[i]? = some lines[i] := List.getElem?_eq_getElem inside
      rw [here, Option.bind_some]
      exact (fits.owners i _ here name).2 ⟨s, there, named, covers⟩
  · constructor
    · intro there
      exact ⟨(fits.names name).1 (List.mem_map_of_mem there), fits.bodies _ there⟩
    · rintro ⟨some_segment, rfl⟩
      obtain ⟨m, there, rfl⟩ := List.mem_map.1 ((fits.names name).2 some_segment)
      rw [← fits.bodies m there]
      exact there

end ClassShape

end CodeGauge
