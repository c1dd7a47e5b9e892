import CodeGauge.FileTree.Basic
import CodeGauge.Proofs.Text

/-!
# Paths with names added to them

Adding a name to a path adds one component, however the path is spelled (`components_join`). So
names that are added one after the other can be read off again: they are what lies below the path
(`below?_joinAll`). The path of a location is absolute already (`absolute_pathOf`).
-/

namespace CodeGauge

open FileTree (isName)

namespace Path

variable {p q : Path} {name : Bytes} {names : List Bytes}

theorem ne_nil_of_isName (h : isName name = true) : name ≠ [] := by
  rintro rfl
  contradiction

theorem slash_not_mem_of_isName (h : isName name = true) : sep ∉ name := by
  simp_all [isName]

theorem segments_of_isName (h : isName name = true) : segments name = [name] := by
  apply Text.splitWhere_of_forall_not
  intro c there
  exact beq_false_of_ne fun same => slash_not_mem_of_isName h (same ▸ there)

theorem component?_of_isName (h : isName name = true) : component? name = some (.name name) := by
  have parts : isIdle name = false ∧ name ≠ [dot, dot] := by simp_all [isName]
  simp [component?, parts]

/-- Components are added where segments are, if the start of the path stays. -/
theorem components_eq_append {added : List Component} (start : q.bytes.head? = p.bytes.head?)
    (first : (segments q.bytes).head? = (segments p.bytes).head?)
    (more : (segments q.bytes).filterMap component? =
      (segments p.bytes).filterMap component? ++ added) :
    q.components = p.components ++ added := by
  have absolute : q.isAbsolute = p.isAbsolute := by simp [isAbsolute, start]
  simp [components, absolute, first, more]

theorem components_join (spelled : p.bytes ≠ []) (h : isName name = true) :
    (p.join name).components = p.components ++ [.name name] := by
  have segments_slash (u : Bytes) : segments (u ++ sep :: name) = segments u ++ [name] := by
    rw [segments, Text.splitWhere_append_sep (by decide)]
    exact congrArg _ (segments_of_isName h)
  have some_segment (u : Bytes) : segments u ≠ [] := Text.splitWhere_ne_nil _ u
  have named : [name].filterMap component? = [.name name] := by simp [component?_of_isName h]
  rw [join, if_neg (by simpa using spelled)]
  split
  · rename_i slash
    obtain ⟨u, same⟩ := List.getLast?_eq_some_iff.1 slash
    have before : segments p.bytes = segments u ++ [[]] := by
      rw [same]
      exact Text.splitWhere_append_sep (by decide) u []
    have after : segments (p.bytes ++ name) = segments u ++ [name] := by
      rw [same, List.append_assoc]
      exact segments_slash u
    refine components_eq_append (List.head?_append_of_ne_nil _ spelled) ?_ ?_
    · rw [before, after, List.head?_append_of_ne_nil _ (some_segment u),
        List.head?_append_of_ne_nil _ (some_segment u)]
    · rw [before, after, List.filterMap_append, List.filterMap_append, named]
      simp [component?, isIdle]
  · refine components_eq_append (List.head?_append_of_ne_nil _ spelled) ?_ ?_
    · rw [segments_slash, List.head?_append_of_ne_nil _ (some_segment _)]
    · rw [segments_slash, List.filterMap_append, named]

theorem join_ne_nil (spelled : p.bytes ≠ []) (name : Bytes) : (p.join name).bytes ≠ [] := by
  rw [join, if_neg (by simpa using spelled)]
  split <;> simp [spelled]

theorem components_joinAll (spelled : p.bytes ≠ []) (h : ∀ n ∈ names, isName n = true) :
    (p.joinAll names).components = p.components ++ names.map .name := by
  induction names generalizing p with
  | nil => simp [joinAll]
  | cons n names ih =>
    have rest := ih (join_ne_nil spelled n) fun m there => h m (by simp [there])
    rw [components_join spelled (h n (by simp))] at rest
    simpa [joinAll] using rest

/-- The names that were added lie below the path. -/
theorem below?_joinAll (spelled : p.bytes ≠ []) (h : ∀ n ∈ names, isName n = true) :
    (p.joinAll names).below? p = some (names.map .name) := by
  simp [below?, components_joinAll spelled h]

theorem joinAll_inj {others : List Bytes} (spelled : p.bytes ≠ [])
    (h : ∀ n ∈ names, isName n = true) (g : ∀ n ∈ others, isName n = true)
    (same : p.joinAll names = p.joinAll others) : names = others := by
  have below := below?_joinAll spelled h
  rw [same, below?_joinAll spelled g, Option.some_inj] at below
  exact (List.map_injective_iff.2 (fun _ _ => Component.name.inj) below).symm

theorem hasExtension_joinAll (spelled : p.bytes ≠ []) (h : ∀ n ∈ names ++ [name], isName n = true)
    (extension : Text) :
    (p.joinAll (names ++ [name])).hasExtension extension =
      (nameExtension? name = some extension.utf8) := by
  have last : (p.joinAll (names ++ [name])).components.getLast? = some (.name name) := by
    rw [components_joinAll spelled h, List.map_append, ← List.append_assoc]
    exact List.getLast?_concat ..
  simp [hasExtension, extension?, fileName?, last]

/-- A path is at least as long as the names in it. -/
theorem length_joinAll (p : Path) (names : List Bytes) :
    p.bytes.length + names.flatten.length ≤ (p.joinAll names).bytes.length := by
  induction names generalizing p with
  | nil => exact Nat.le_refl _
  | cons n names ih =>
    have one : p.bytes.length + n.length ≤ (p.join n).bytes.length := by
      unfold join
      split
      · simp_all
      · split <;> simp
    have rest := ih (p.join n)
    rw [List.flatten_cons, List.length_append]
    show _ ≤ ((p.join n).joinAll names).bytes.length
    omega

/-! ## Locations as paths -/

section Absolute

open FileTree (pathOf)

variable {loc : Location}

theorem join_pathOf (h : ∀ n ∈ loc, isName n = true) :
    (pathOf loc).join name = pathOf (loc ++ [name]) := by
  rcases List.eq_nil_or_concat' loc with rfl | ⟨front, n, rfl⟩
  · simp [pathOf, join, Text.join]
  · have named := h n (by simp)
    obtain ⟨u, c, rfl⟩ := (List.eq_nil_or_concat' n).resolve_left (ne_nil_of_isName named)
    have other : c ≠ sep := fun same => slash_not_mem_of_isName named (by simp [same])
    have last : (pathOf (front ++ [u ++ [c]])).bytes.getLast? = some c := by
      cases front with
      | nil => simp [pathOf, Text.join, List.getLast?_cons]
      | cons first front =>
        rw [pathOf, Text.join_concat (by simp)]
        simp [List.getLast?_cons, List.getLast?_append]
    have added : Text.join [sep] (front ++ [u ++ [c]] ++ [name]) =
        Text.join [sep] (front ++ [u ++ [c]]) ++ ([sep] ++ name) := Text.join_concat (by simp) name
    rw [join, if_neg (by simp [pathOf]), last, if_neg (by simpa using other), pathOf, pathOf, added]
    rfl

theorem joinAll_pathOf (h : ∀ n ∈ loc ++ names, isName n = true) :
    (pathOf loc).joinAll names = pathOf (loc ++ names) := by
  induction names generalizing loc with
  | nil => simp [joinAll]
  | cons n names ih =>
    have first : (pathOf loc).join n = pathOf (loc ++ [n]) :=
      join_pathOf fun m there => h m (List.mem_append_left _ there)
    have rest : (pathOf (loc ++ [n])).joinAll names = pathOf (loc ++ [n] ++ names) :=
      ih (by simpa using h)
    rw [← first] at rest
    simpa [joinAll] using rest

theorem pathOf_inj {other : Location} (h : ∀ n ∈ loc, isName n = true)
    (g : ∀ n ∈ other, isName n = true) (same : pathOf loc = pathOf other) : loc = other := by
  refine joinAll_inj (p := pathOf []) (by simp [pathOf]) h g ?_
  rw [joinAll_pathOf (by simpa using h), joinAll_pathOf (by simpa using g)]
  exact same

theorem segments_join (some_name : names ≠ []) (h : ∀ n ∈ names, isName n = true) :
    segments (Text.join [sep] names) = names := by
  induction names with
  | nil => contradiction
  | cons n names ih =>
    have first := segments_of_isName (h n (by simp))
    cases names with
    | nil => simpa [Text.join] using first
    | cons m names =>
      have rest := ih (by simp) fun k there => h k (by simp [there])
      unfold segments at first rest ⊢
      rw [Text.join_cons_cons, List.singleton_append, Text.splitWhere_append_sep (by decide),
        first, rest]
      rfl

theorem components_pathOf (h : ∀ n ∈ loc, isName n = true) :
    (pathOf loc).components = .root :: loc.map .name := by
  have start : (pathOf []).components = [.root] := by decide
  rw [← List.nil_append loc, ← joinAll_pathOf (by simpa using h),
    components_joinAll (by simp [pathOf]) h, start]
  rfl

/-- A location is an absolute path already. -/
theorem absolute_pathOf (cwd : Path) (h : ∀ n ∈ loc, isName n = true) :
    absolute cwd (pathOf loc) = pathOf loc := by
  have names : (pathOf loc).components.filter (fun c => c ≠ .here ∧ c ≠ .root) = loc.map .name := by
    rw [components_pathOf h]
    simp
  have single : [sep, sep].isPrefixOf (pathOf loc).bytes = false := by
    cases loc with
    | nil => decide
    | cons n loc =>
      have named := h n (by simp)
      obtain ⟨c, u, rfl⟩ := List.exists_cons_of_ne_nil (ne_nil_of_isName named)
      have other : sep ≠ c := fun same => slash_not_mem_of_isName named (same ▸ List.mem_cons_self)
      simp [pathOf, Text.join, List.isPrefixOf, other]
  have full : (ofString "/").joinAll ((loc.map .name).map Component.bytes) = pathOf loc := by
    have spelled : (loc.map Component.name).map Component.bytes = loc := by
      simp [Function.comp_def, Component.bytes]
    rw [spelled]
    show (pathOf []).joinAll loc = pathOf ([] ++ loc)
    exact joinAll_pathOf (by simpa using h)
  have absolute : (pathOf loc).isAbsolute = true := rfl
  have spelled : (pathOf loc).bytes.isEmpty = false := rfl
  simp only [Path.absolute, names, single, absolute, spelled, Bool.false_eq_true,
    false_and, if_true, if_false, full, ne_eq, and_not_self]

end Absolute

end Path

end CodeGauge
