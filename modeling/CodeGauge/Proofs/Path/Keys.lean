import CodeGauge.Proofs.Path.Steps
import CodeGauge.Proofs.Snapshot

/-!
# Keys of paths

The absolute path of a path is the key under which things about it are kept. It leads along the
steps of the working directory and those of the path, or along the latter alone if the path starts
at the root (`steps_absolute`). So two paths have the same key exactly if they have the same trail
(`same_absolute_iff`), and no way of spelling a path changes its trail (`Respelled.trail_eq`).

The empty path is the exception: it is its own key, while `.` has the key of the working directory.
-/

namespace CodeGauge

namespace Path

variable {cwd p q : Path} {t u : Bytes}

/-! ## Steps across a slash -/

theorem steps_append_slash (t u : Bytes) : steps (t ++ sep :: u) = steps t ++ steps u := by
  unfold steps
  rw [segments_append_slash, List.filter_append]

theorem steps_concat_slash (t : Bytes) : steps (t ++ [sep]) = steps t := by
  rw [steps_append_slash]
  exact List.append_nil (steps t)

theorem isAbsolute_append (spelled : t ≠ []) (u : Bytes) :
    (Path.mk (t ++ u)).isAbsolute = (Path.mk t).isAbsolute := by
  unfold isAbsolute
  rw [List.head?_append_of_ne_nil _ spelled]

/-- Whether a path starts at the root is settled before its first slash is passed. -/
theorem isAbsolute_append_slash (t u v : Bytes) :
    (Path.mk (t ++ sep :: u)).isAbsolute = (Path.mk (t ++ sep :: v)).isAbsolute := by
  cases t <;> rfl

/-! ## Paths from the root -/

theorem spelled_of_isAbsolute (rooted : p.isAbsolute = true) : p.bytes ≠ [] := by
  intro none
  simp [isAbsolute, none] at rooted

/-- A segment that says nothing stands for no component. -/
theorem filterMap_component?_steps (t : Bytes) :
    (steps t).filterMap component? = (segments t).filterMap component? := by
  unfold steps
  rw [List.filterMap_filter]
  refine List.filterMap_congr fun segment _ => ?_
  by_cases idle : isIdle segment
  · rw [component?, if_pos idle, if_neg (by simp [idle])]
  · rw [if_pos (by simp [idle])]

theorem components_of_isAbsolute (rooted : p.isAbsolute = true) :
    p.components = .root :: (steps p.bytes).filterMap component? := by
  rw [components, if_pos rooted, filterMap_component?_steps]
  rfl

/-- From the root the steps alone say where a path leads. -/
theorem same_iff_steps (hp : p.isAbsolute = true) (hq : q.isAbsolute = true) :
    p.same q = true ↔ steps p.bytes = steps q.bytes := by
  rw [same_iff]
  constructor
  · intro same
    rw [← map_bytes_components p, ← map_bytes_components q, same]
  · intro same
    rw [components_of_isAbsolute hp, components_of_isAbsolute hq, same]

/-! ## The trail of a path -/

/-- The steps from the root to where a path leads, from a working directory. -/
def trail (cwd p : Path) : List Bytes :=
  (if p.isAbsolute then [] else steps cwd.bytes) ++ steps p.bytes

theorem trail_of_isAbsolute (rooted : p.isAbsolute = true) : trail cwd p = steps p.bytes := by
  rw [trail, if_pos rooted, List.nil_append]

theorem trail_of_relative (relative : p.isAbsolute = false) :
    trail cwd p = steps cwd.bytes ++ steps p.bytes := by
  rw [trail, if_neg (by simp [relative])]

theorem trail_congr (start : p.isAbsolute = q.isAbsolute) (same : steps p.bytes = steps q.bytes) :
    trail cwd p = trail cwd q := by
  unfold trail
  rw [start, same]

theorem absolute_of_empty (empty : p.bytes = []) : absolute cwd p = ⟨[]⟩ := by
  rw [absolute, if_pos (by simp [empty]), ← empty]

theorem joinAll_ne_nil (spelled : p.bytes ≠ []) (names : List Bytes) :
    (p.joinAll names).bytes ≠ [] := by
  induction names generalizing p with
  | nil => exact spelled
  | cons name names ih => exact ih (join_ne_nil spelled name)

/-- Adding the slash at the end back changes no step. -/
theorem steps_joinAll_slash (spelled : p.bytes ≠ []) (end_slash : Prop) [Decidable end_slash] :
    let full := p.joinAll (steps t)
    let ended : Path := if end_slash then ⟨full.bytes ++ [sep]⟩ else full
    steps ended.bytes = steps p.bytes ++ steps t ∧ ended.isAbsolute = p.isAbsolute := by
  obtain ⟨same, start, -⟩ := steps_joinAll spelled (steps t) fun _ there => noSlash_steps there
  split
  · have some_char : (p.joinAll (steps t)).bytes ≠ [] := joinAll_ne_nil spelled _
    exact ⟨(steps_concat_slash _).trans same, (isAbsolute_append some_char _).trans start⟩
  · exact ⟨same, start⟩

/-- The key of a path that is not empty starts at the root and has the trail of the path as its
steps. -/
theorem steps_absolute (rooted : cwd.isAbsolute = true) (spelled : p.bytes ≠ []) :
    steps (absolute cwd p).bytes = trail cwd p ∧ (absolute cwd p).isAbsolute = true := by
  have some_char : p.bytes.isEmpty = false := by simpa using spelled
  unfold absolute
  simp only [some_char, Bool.false_eq_true, if_false, map_bytes_components]
  by_cases root : p.isAbsolute
  · simp only [root, if_true]
    rw [trail_of_isAbsolute root]
    split
    · exact steps_joinAll_slash (p := ofString "//") (by decide) _
    · exact steps_joinAll_slash (p := ofString "/") (by decide) _
  · simp only [root, Bool.false_eq_true, if_false]
    rw [trail_of_relative (by simpa using root), ← rooted]
    exact steps_joinAll_slash (spelled_of_isAbsolute rooted) _

/-- Two paths that are not empty have one key exactly if they have one trail. -/
theorem same_absolute_iff (rooted : cwd.isAbsolute = true) (hp : p.bytes ≠ []) (hq : q.bytes ≠ []) :
    (absolute cwd p).same (absolute cwd q) = true ↔ trail cwd p = trail cwd q := by
  obtain ⟨steps_p, root_p⟩ := steps_absolute rooted hp
  obtain ⟨steps_q, root_q⟩ := steps_absolute rooted hq
  rw [same_iff_steps root_p root_q, steps_p, steps_q]

/-- Whether a path can be a key: it starts at the root, or it is empty. -/
def IsKey (k : Path) : Prop := k.bytes = [] ∨ k.isAbsolute = true

theorem isKey_absolute (rooted : cwd.isAbsolute = true) (p : Path) : IsKey (absolute cwd p) := by
  by_cases empty : p.bytes = []
  · left
    rw [absolute_of_empty empty]
  · right
    exact (steps_absolute rooted empty).2

/-- A key is its own key, whatever the working directory is by then. -/
theorem IsKey.same_absolute {k : Path} (h : IsKey k) (rooted : cwd.isAbsolute = true) :
    (absolute cwd k).same k = true := by
  rcases h with empty | root
  · obtain rfl : k = ⟨[]⟩ := by rw [← empty]
    rw [absolute_of_empty rfl, same_self]
  · obtain ⟨again, root'⟩ := steps_absolute rooted (spelled_of_isAbsolute root)
    rw [same_iff_steps root' root, again, trail_of_isAbsolute root]

/-! ## Spellings -/

/-- Two spellings of one path: they differ by `.`, by doubled slashes, by a slash at the end or by
the working directory in front. -/
inductive Respelled (cwd : Path) : Path → Path → Prop
  | here (t u : Bytes) : Respelled cwd ⟨t ++ sep :: dot :: sep :: u⟩ ⟨t ++ sep :: u⟩
  | hereFirst {u : Bytes} (relative : (Path.mk u).isAbsolute = false) : Respelled cwd
    ⟨dot :: sep :: u⟩ ⟨u⟩
  | hereLast (t : Bytes) : Respelled cwd ⟨t ++ [sep, dot]⟩ ⟨t ++ [sep]⟩
  | doubled (t u : Bytes) : Respelled cwd ⟨t ++ sep :: sep :: u⟩ ⟨t ++ sep :: u⟩
  | slashLast {t : Bytes} (spelled : t ≠ []) : Respelled cwd ⟨t ++ [sep]⟩ ⟨t⟩
  | inside {p : Path} (relative : p.isAbsolute = false) : Respelled cwd
    ⟨cwd.bytes ++ sep :: p.bytes⟩ p
  | refl (p : Path) : Respelled cwd p p
  | symm {p q : Path} (h : Respelled cwd p q) : Respelled cwd q p
  | trans {p q r : Path} (h : Respelled cwd p q) (h' : Respelled cwd q r) : Respelled cwd p r

theorem Respelled.trail_eq (rooted : cwd.isAbsolute = true) (h : Respelled cwd p q) :
    trail cwd p = trail cwd q := by
  induction h with
  | here t u =>
    apply trail_congr (isAbsolute_append_slash _ _ _)
    rw [steps_append_slash, steps_here, ← steps_append_slash]
  | hereFirst relative => exact trail_congr relative.symm (steps_here _)
  | hereLast t =>
    apply trail_congr (isAbsolute_append_slash _ _ _)
    rw [steps_append_slash, steps_append_slash]
    rfl
  | doubled t u =>
    apply trail_congr (isAbsolute_append_slash _ _ _)
    rw [steps_append_slash, steps_slash, ← steps_append_slash]
  | slashLast spelled => exact trail_congr (isAbsolute_append spelled _) (steps_concat_slash _)
  | inside relative =>
    rw [trail_of_relative relative, trail_of_isAbsolute, steps_append_slash]
    exact (isAbsolute_append (spelled_of_isAbsolute rooted) _).trans rooted
  | refl p => rfl
  | symm _ ih => exact ih.symm
  | trans _ _ ih ih' => exact ih.trans ih'

theorem not_same_empty (rooted : p.isAbsolute = true) : p.same ⟨[]⟩ = false := by
  have first := components_of_isAbsolute rooted
  by_contra same
  have none : p.components = [] := same_iff.1 (by simpa using same)
  rw [none] at first
  exact List.cons_ne_nil _ _ first.symm

/-- Two spellings have the same key, unless one of them is empty and the other is not. -/
theorem Respelled.same_absolute_iff (rooted : cwd.isAbsolute = true) (h : Respelled cwd p q) :
    (absolute cwd p).same (absolute cwd q) = true ↔ (p.bytes = [] ↔ q.bytes = []) := by
  by_cases hp : p.bytes = [] <;> by_cases hq : q.bytes = []
  · simp [absolute_of_empty hp, absolute_of_empty hq, hp, hq]
  · rw [absolute_of_empty hp, same_comm, not_same_empty (steps_absolute rooted hq).2]
    simp [hp, hq]
  · rw [absolute_of_empty hq, not_same_empty (steps_absolute rooted hp).2]
    simp [hp, hq]
  · simpa [hp, hq] using (Path.same_absolute_iff rooted hp hq).2 (h.trail_eq rooted)

end Path

end CodeGauge
