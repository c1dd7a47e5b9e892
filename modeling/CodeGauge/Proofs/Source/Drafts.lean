import Mathlib.Data.List.Nodup
import CodeGauge.Source.ClassShape

/-!
# Drafts of classes

A class is read into a draft, which finds the method of a line by a tree of names. The draft is one
of the shape that the lines give when they are read into a shape (`ofSource_eq`): each line does the
same to both (`ClassDraft.Sound.readLine`), as long as the tree holds the names of the methods and
none is listed twice (`ClassDraft.Sound`).
-/

namespace CodeGauge

namespace NameTree

/-- However the names are ordered, those in a tree are found, and so is one that was added. -/
theorem contains_insert (t : NameTree) (name other : Text) :
    (t.insert name).contains other = (other = name || t.contains other) := by
  induction t with
  | leaf => simp [insert, contains]
  | node left here right ihl ihr => grind [insert, contains]

end NameTree

namespace ClassShape

variable {name line : Text} {method : Text × Text}

theorem extend_fst (name line : Text) (method : Text × Text) :
    (extend name line method).1 = method.1 := by
  unfold extend
  split <;> rfl

theorem map_extend_names (name line : Text) (methods : List (Text × Text)) :
    (methods.map (extend name line)).map (·.1) = methods.map (·.1) := by
  rw [List.map_map]
  exact List.map_congr_left fun method _ => extend_fst name line method

theorem map_extend_of_not_mem {methods : List (Text × Text)} (absent : name ∉ methods.map (·.1)) :
    methods.map (extend name line) = methods := by
  refine (List.map_congr_left fun method there => ?_).trans (List.map_id _)
  have other : method.1 ≠ name := fun same => absent (same ▸ List.mem_map_of_mem there)
  exact if_neg other

theorem any_name_iff {methods : List (Text × Text)} :
    methods.any (·.1 = name) = true ↔ name ∈ methods.map (·.1) := by
  simp [List.mem_map]

end ClassShape

namespace ClassDraft

open ClassShape

variable {d : ClassDraft} {name line : Text}

/-- Whether the tree of a draft holds the names of its methods, and no method is listed twice. -/
structure Sound (d : ClassDraft) : Prop where
  distinct : (d.latest.map (·.1)).Nodup
  listed : ∀ name, d.names.contains name.reverse = true ↔ name ∈ d.latest.map (·.1)

theorem sound_empty : empty.Sound := ⟨List.nodup_nil, by simp [empty, NameTree.contains]⟩

theorem mem_names_shape : name ∈ d.shape.methods.map (·.1) ↔ name ∈ d.latest.map (·.1) := by
  simp [shape]

/-- What a line does to a draft: it goes to the method that is there, or to a new one. -/
theorem Sound.addLine_cases (h : d.Sound) (name line : Text) :
    (name ∈ d.latest.map (·.1) ∧
      d.addLine name line = { d with latest := d.latest.map (extend name line) }) ∨
    (name ∉ d.latest.map (·.1) ∧ d.addLine name line =
      { d with
        latest := (name, line ++ ['\n']) :: d.latest
        names := d.names.insert name.reverse }) := by
  obtain ⟨distinct, listed⟩ := h
  unfold addLine
  cases methods : d.latest with
  | nil => simp
  | cons method before =>
    obtain ⟨last, body⟩ := method
    rw [methods] at distinct listed
    obtain ⟨absent, -⟩ := List.nodup_cons.1 distinct
    by_cases same : last = name
    · subst same
      left
      simp [extend, map_extend_of_not_mem absent]
    · by_cases known : d.names.contains name.reverse = true
      · left
        exact ⟨(listed name).1 known, by simp [same, known, extend]⟩
      · right
        exact ⟨mt (listed name).2 known, by simp [same, known]⟩

theorem Sound.addLine (h : d.Sound) (name line : Text) : (d.addLine name line).Sound := by
  rcases h.addLine_cases name line with ⟨-, same⟩ | ⟨absent, new⟩
  · rw [same]
    refine ⟨?_, fun other => ?_⟩
    · rw [map_extend_names]
      exact h.distinct
    · rw [map_extend_names]
      exact h.listed other
  · rw [new]
    refine ⟨List.nodup_cons.2 ⟨absent, h.distinct⟩, fun other => ?_⟩
    rw [NameTree.contains_insert, Bool.or_eq_true, h.listed, decide_eq_true_iff, List.reverse_inj]
    simp

theorem Sound.shape_addLine (h : d.Sound) (name line : Text) :
    (d.addLine name line).shape = d.shape.addLine name line := by
  rcases h.addLine_cases name line with ⟨there, same⟩ | ⟨absent, new⟩
  · have known := any_name_iff.2 (mem_names_shape.2 there)
    rw [same, ClassShape.addLine, if_pos known]
    simp [shape]
  · have unknown := mt any_name_iff.1 (mt mem_names_shape.1 absent)
    rw [new, ClassShape.addLine, if_neg unknown]
    simp [shape]

theorem shape_addField (d : ClassDraft) (field : Text) :
    (d.addField field).shape = d.shape.addField field := by
  have methods : (d.shape.addField field).methods = d.shape.methods := by
    unfold ClassShape.addField
    split <;> rfl
  show ClassShape.mk (d.shape.addField field).fields d.shape.methods = _
  rw [← methods]

/-! ## Reading into a draft -/

/-- What has been read into a draft, as what has been read into its shape. -/
def view (p : Progress ClassDraft) : Progress ClassShape := ⟨p.shape.shape, p.current⟩

variable {p : Progress ClassDraft}

theorem Sound.readBody (h : p.shape.Sound) (method : OpenMethod) (line : Text) :
    (ClassShape.readBody p method line).shape.Sound ∧
      view (ClassShape.readBody p method line) = ClassShape.readBody (view p) method line := by
  refine ⟨h.addLine method.name line, ?_⟩
  exact congrArg (Progress.mk · _) (h.shape_addLine method.name line)

theorem Sound.readSignature (h : p.shape.Sound) (line : Text) :
    (ClassShape.readSignature p line).shape.Sound ∧
      view (ClassShape.readSignature p line) = ClassShape.readSignature (view p) line := by
  unfold ClassShape.readSignature
  cases Member.method? line with
  | none => exact ⟨h, rfl⟩
  | some name => exact h.readBody ⟨name, 0⟩ line

/-- A line does the same to a draft and to its shape. -/
theorem Sound.readLine (h : p.shape.Sound) (line : Text) :
    (ClassShape.readLine p line).shape.Sound ∧
      view (ClassShape.readLine p line) = ClassShape.readLine (view p) line := by
  obtain ⟨draft, current⟩ := p
  cases current with
  | some method => exact h.readBody method line
  | none =>
    have first : (Notes.noMethod (view ⟨draft, none⟩).shape) = Notes.noMethod draft :=
      List.isEmpty_reverse
    unfold ClassShape.readLine
    rw [first]
    by_cases fresh : Notes.noMethod draft = true
    · simp only [view, fresh, if_true]
      cases Member.field? line with
      | none => exact h.readSignature line
      | some field =>
        exact ⟨⟨h.distinct, h.listed⟩, congrArg (Progress.mk · none) (shape_addField draft field)⟩
    · simp only [view, fresh, if_false, Bool.false_eq_true]
      exact h.readSignature line

theorem Sound.foldl_readLine (h : p.shape.Sound) (lines : List Text) :
    view (lines.foldl ClassShape.readLine p) = lines.foldl ClassShape.readLine (view p) := by
  induction lines generalizing p with
  | nil => rfl
  | cons line lines ih =>
    obtain ⟨sound, same⟩ := h.readLine line
    rw [List.foldl_cons, List.foldl_cons, ih sound, same]

end ClassDraft

namespace ClassShape

/-- What has been read of a class after its first lines. -/
def progress (lines : List Text) : Progress ClassShape := lines.foldl readLine ⟨empty, none⟩

/-- The shape of a class can be read line by line without a draft. -/
theorem ofSource_eq (source : Text) :
    ofSource source = (progress (afterHeader (Text.trimmedLines source))).shape :=
  congrArg Progress.shape (ClassDraft.Sound.foldl_readLine ClassDraft.sound_empty _)

end ClassShape

end CodeGauge
