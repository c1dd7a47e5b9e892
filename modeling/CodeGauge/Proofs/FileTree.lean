import Mathlib.Data.List.Induction
import Mathlib.Data.List.Nodup
import CodeGauge.Proofs.Path

/-!
# What a file tree holds

In a tree as a disk can hold it, a location stands for one node, and all that is above a node is a
directory (`WellFormed.node?_above`). The path of a directory leads to it, unless it is refused to
look names up in a directory above it (`trace_pathOf`). Whether the last link of a path is followed
or kept makes a difference only where the path ends in a link (`locate_keep`).
-/

namespace CodeGauge

namespace FileTree

variable {t : FileTree} {loc : Location} {names : List Bytes} {node : Node}

theorem mem_nodes_of_node? (below : loc ≠ []) (h : t.node? loc = some node) :
    (loc, node) ∈ t.nodes := by
  rw [node?, if_neg (by simpa using below)] at h
  obtain ⟨e, found, rfl⟩ := Option.map_eq_some_iff.1 h
  have same : e.1 = loc := by simpa using List.find?_some found
  exact same ▸ List.mem_of_find?_eq_some found

theorem node?_of_mem_nodes (distinct : (t.nodes.map (·.1)).Nodup) (below : loc ≠ [])
    (there : (loc, node) ∈ t.nodes) : t.node? loc = some node := by
  rw [node?, if_neg (by simpa using below)]
  obtain ⟨found, h⟩ := Option.isSome_iff_exists.1
    (List.find?_isSome.2 ⟨_, there, by simp⟩ : (t.nodes.find? (·.1 = loc)).isSome)
  have same : found = (loc, node) := List.inj_on_of_nodup_map distinct
    (List.mem_of_find?_eq_some h) there (by simpa using List.find?_some h)
  rw [h, same]
  rfl

theorem mem_entriesAt {name : Bytes} :
    (name, node) ∈ t.entriesAt loc ↔ (loc ++ [name], node) ∈ t.nodes := by
  rw [entriesAt, List.mem_filterMap]
  constructor
  · rintro ⟨⟨place, node'⟩, there, found⟩
    obtain ⟨above, found⟩ := Option.ite_none_right_eq_some.1 found
    obtain ⟨last, same, entry⟩ := Option.map_eq_some_iff.1 found
    obtain ⟨front, rfl⟩ := List.getLast?_eq_some_iff.1 same
    obtain ⟨rfl, rfl⟩ := Prod.mk.inj entry
    rw [List.dropLast_concat] at above
    exact above ▸ there
  · intro there
    exact ⟨_, there, by simp⟩

theorem length_le_height (there : (loc, node) ∈ t.nodes) : loc.length ≤ t.height := by
  unfold height
  generalize t.nodes = nodes at there ⊢
  induction nodes with
  | nil => simp at there
  | cons e nodes ih =>
    rw [List.foldr_cons]
    rcases List.mem_cons.1 there with rfl | there
    · exact Nat.le_max_left ..
    · exact Nat.le_trans (ih there) (Nat.le_max_right ..)

namespace WellFormed

/-- What is above a node is a directory. -/
theorem node?_above (wf : t.WellFormed) (some_name : names ≠ [])
    (h : t.node? (loc ++ names) = some node) : t.node? loc = some .directory := by
  induction names using List.reverseRecOn generalizing node with
  | nil => contradiction
  | append_singleton names n ih =>
    have there := mem_nodes_of_node? (by simp) h
    have above := wf.inDirectory _ there
    rw [← List.append_assoc, List.dropLast_concat] at above
    cases names with
    | nil => simpa using above
    | cons m names => exact ih (by simp) above

theorem isName_of_node? (wf : t.WellFormed) (some_name : names ≠ [])
    (h : t.node? (loc ++ names) = some node) : ∀ n ∈ names, isName n = true := by
  intro n there
  have named := (wf.named _ (mem_nodes_of_node? (by simp [some_name]) h)).2
  exact named n (List.mem_append_right loc there)

end WellFormed

/-! ## Walking along a path -/

section Steps

variable {last : LastName} {links : Nat} {segment : Bytes} {rest : List Bytes}

theorem walk_nil (t : FileTree) (last : LastName) (links : Nat) (loc : Location) :
    t.walk last links loc [] = .ok loc := by
  rw [walk]

theorem walk_empty (here : t.node? loc = some .directory) :
    t.walk last links loc ([] :: rest) = t.walk last links loc rest := by
  rw [walk]
  simp [here]

/-- Whatever is looked up in a directory that refuses it comes to nothing. -/
theorem walk_refused (here : t.node? loc = some .directory) {wording : String}
    (refused : t.refusal? loc .search = some wording) (speaks : segment ≠ []) :
    t.walk last links loc (segment :: rest) = .error (.refused wording) := by
  rw [walk]
  simp [here, refused, speaks]

/-- A directory in which names can be looked up. -/
structure Searchable (t : FileTree) (loc : Location) : Prop where
  directory : t.node? loc = some .directory
  allowed : t.refusal? loc .search = none

theorem walk_idle (here : t.Searchable loc) (idle : Path.isIdle segment = true) :
    t.walk last links loc (segment :: rest) = t.walk last links loc rest := by
  rw [walk]
  simp [here.directory, here.allowed, idle]

/-- Segments that say nothing lead nowhere else. -/
theorem walk_idles (here : t.Searchable loc) (idle : ∀ segment ∈ rest, Path.isIdle segment = true) :
    t.walk last links loc rest = .ok loc := by
  induction rest with
  | nil => exact walk_nil ..
  | cons segment rest ih =>
    rw [walk_idle here (idle segment (by simp))]
    exact ih fun other there => idle other (by simp [there])

/-- In any directory, segments that say nothing lead nowhere else, if they lead anywhere. -/
theorem eq_of_walk_idles (here : t.node? loc = some .directory)
    (idle : ∀ segment ∈ rest, Path.isIdle segment = true) {place : Location}
    (leads : t.walk last links loc rest = .ok place) : place = loc := by
  induction rest with
  | nil =>
    rw [walk_nil] at leads
    exact (Except.ok.inj leads).symm
  | cons segment rest ih =>
    have later := ih fun other there => idle other (by simp [there])
    by_cases empty : segment = []
    · rw [empty, walk_empty here] at leads
      exact later leads
    · cases refused : t.refusal? loc .search with
      | none =>
        rw [walk_idle ⟨here, refused⟩ (idle segment (by simp))] at leads
        exact later leads
      | some wording =>
        rw [walk_refused here refused empty] at leads
        contradiction

theorem walk_up (here : t.Searchable loc) :
    t.walk last links loc ([Path.dot, Path.dot] :: rest) = t.walk last links loc.dropLast rest := by
  rw [walk]
  simp [here.directory, here.allowed, Path.isIdle]

theorem ne_nil_of_isName (named : isName segment = true) : segment ≠ [] := by
  rintro rfl
  contradiction

theorem walk_enter (here : t.Searchable loc) (named : isName segment = true)
    (there : t.node? (loc ++ [segment]) = some .directory) :
    t.walk last links loc (segment :: rest) = t.walk last links (loc ++ [segment]) rest := by
  have some_byte := ne_nil_of_isName named
  have parts : Path.isIdle segment = false ∧ segment ≠ [Path.dot, Path.dot] ∧
      segment.length ≤ maxNameBytes := by simp_all [isName]
  rw [walk]
  simp [here.directory, here.allowed, some_byte, parts, there, Nat.not_lt.2 parts.2.2]

/-- The last name of a path leads to what stands there, unless that is a link. -/
theorem walk_last (here : t.Searchable loc) (named : isName segment = true)
    (there : t.node? (loc ++ [segment]) = some node) (plain : ∀ target, node ≠ .link target) :
    t.walk last links loc [segment] = .ok (loc ++ [segment]) := by
  have some_byte := ne_nil_of_isName named
  have parts : Path.isIdle segment = false ∧ segment ≠ [Path.dot, Path.dot] ∧
      segment.length ≤ maxNameBytes := by simp_all [isName]
  rw [walk]
  cases node with
  | link target => exact absurd rfl (plain target)
  | file | directory =>
    simp [here.directory, here.allowed, some_byte, parts, there, Nat.not_lt.2 parts.2.2, walk_nil]

theorem walk_missing (here : t.Searchable loc) (named : isName segment = true)
    (gone : t.node? (loc ++ [segment]) = none) :
    t.walk last links loc (segment :: rest) = .error .missing := by
  have some_byte := ne_nil_of_isName named
  have parts : Path.isIdle segment = false ∧ segment ≠ [Path.dot, Path.dot] ∧
      segment.length ≤ maxNameBytes := by simp_all [isName]
  rw [walk]
  simp [here.directory, here.allowed, some_byte, parts, gone, Nat.not_lt.2 parts.2.2]

/-- Names of directories lead down to the last one, unless a directory on the way refuses it. -/
theorem walk_down (wf : t.WellFormed) (directory : t.node? (loc ++ names) = some .directory)
    (last : LastName) (links : Nat) :
    (∃ wording, ∀ rest, t.walk last links loc (names ++ rest) = .error (.refused wording)) ∨
      ∀ rest, t.walk last links loc (names ++ rest) = t.walk last links (loc ++ names) rest := by
  induction names generalizing loc with
  | nil => exact .inr fun rest => by rw [List.nil_append, List.append_nil]
  | cons n names ih =>
    have here := wf.node?_above (by simp) directory
    have named := wf.isName_of_node? (by simp) directory n (by simp)
    rw [← List.singleton_append, ← List.append_assoc] at directory
    have there : t.node? (loc ++ [n]) = some .directory := by
      cases names with
      | nil => simpa using directory
      | cons m names => exact wf.node?_above (by simp) directory
    cases refused : t.refusal? loc .search with
    | some wording =>
      exact .inl ⟨wording, fun rest => walk_refused here refused (ne_nil_of_isName named)⟩
    | none =>
      have enters (rest : List Bytes) : t.walk last links loc (n :: names ++ rest) =
          t.walk last links (loc ++ [n]) (names ++ rest) := walk_enter ⟨here, refused⟩ named there
      rcases ih directory with ⟨wording, fails⟩ | goes
      · exact .inl ⟨wording, fun rest => (enters rest).trans (fails rest)⟩
      · refine .inr fun rest => (enters rest).trans ((goes rest).trans ?_)
        rw [List.append_assoc, List.singleton_append]

end Steps

/-! ## Locations as paths -/

theorem WellFormed.isName_of_located (wf : t.WellFormed) (h : t.node? loc = some node) :
    ∀ n ∈ loc, isName n = true := by
  intro n there
  exact (wf.named _ (mem_nodes_of_node? (List.ne_nil_of_mem there) h)).2 n there

theorem nul_not_mem_pathOf (named : ∀ n ∈ loc, isName n = true) : nul ∉ (pathOf loc).bytes := by
  intro there
  rcases List.mem_cons.1 there with same | there
  · exact absurd same (by decide)
  · rcases Text.mem_join there with sep | ⟨n, member, there⟩
    · exact absurd sep (by decide)
    · have := named n member
      simp_all [isName]

/-- The path of a location is walked along from the root, name by name. -/
theorem trace_eq_walk (named : ∀ n ∈ loc, isName n = true) (some_name : loc ≠ [])
    (last : LastName) :
    t.trace last (pathOf loc) = t.walk last maxLinks [] loc := by
  have start : Path.segments (pathOf loc).bytes = [] :: loc :=
    (Text.splitWhere_sep (by decide) _).trans (congrArg _ (Path.segments_join some_name named))
  rw [trace, if_neg (by simp [nul_not_mem_pathOf named]), if_neg (by simp [pathOf]), start]
  exact walk_empty rfl

theorem trace_root (t : FileTree) (last : LastName) : t.trace last (pathOf []) = .ok [] := by
  have top : t.trace last (pathOf []) = t.walk last maxLinks [] [[], []] := rfl
  rw [top, walk_empty rfl, walk_empty rfl, walk_nil]

/-- The path of a directory leads to it, links followed or not, unless a directory above it refuses
it. -/
theorem trace_pathOf (wf : t.WellFormed) (directory : t.node? loc = some .directory)
    (last : LastName) :
    (∃ wording, t.trace last (pathOf loc) = .error (.refused wording)) ∨
      t.trace last (pathOf loc) = .ok loc := by
  cases loc with
  | nil => exact .inr (trace_root t last)
  | cons n loc =>
    have below : t.node? ([] ++ n :: loc) = some .directory := directory
    rw [trace_eq_walk (wf.isName_of_located directory) (by simp), ← List.append_nil (n :: loc)]
    rcases walk_down wf below last maxLinks with ⟨wording, fails⟩ | goes
    · exact .inl ⟨wording, fails []⟩
    · exact .inr ((goes []).trans (by rw [walk_nil, List.nil_append, List.append_nil]))

/-! ## Links at the end of a path -/

/-- What a walk that keeps the last link comes to: the place where the link leads, or the link. -/
def SameOrLink (t : FileTree) (target : Location) (kept : Except AccessError Location) : Prop :=
  kept = .ok target ∨ ∃ place text, kept = .ok place ∧ t.node? place = some (.link text)

/-- Two walks along the same segments, one that follows the last link and one that keeps it. -/
theorem walk_keep {links : Nat} {todo : List Bytes} {target : Location}
    (h : t.walk .follow links loc todo = .ok target) :
    t.SameOrLink target (t.walk .keep links loc todo) := by
  fun_induction walk t .follow links loc todo with
  | case1 => exact .inl (by rw [walk]; exact h)
  | case3 links loc segment rest here empty ih =>
    obtain rfl : segment = [] := by simpa using empty
    rw [walk_empty here]
    exact ih h
  | case5 links loc segment rest here spelled allowed idle ih =>
    rw [walk_idle ⟨here, allowed⟩ idle]
    exact ih h
  | case6 links loc rest here allowed _ _ ih =>
    rw [walk_up ⟨here, allowed⟩]
    exact ih h
  | case9 links loc segment rest here spelled allowed idle up long text link last => simp at last
  | case11 loc segment rest here spelled allowed idle up long text link last links ih =>
    -- At a link the two walks go on together, unless the path ends there.
    rw [walk]
    by_cases ends : rest = []
    · exact .inr ⟨loc ++ [segment], text, by simp_all, link⟩
    · simpa [here, spelled, allowed, idle, up, long, link, ends] using ih h
  | case12 links loc segment rest here spelled allowed idle up long node other there ih =>
    rw [walk]
    simpa [here, spelled, allowed, idle, up, long, there] using ih h
  | _ => contradiction

/-- A path that can be looked up at all is walked along. -/
theorem locate_of_fits {p : Path}
    (fits : p.bytes ≠ [] ∧ p.bytes.length ≤ maxPathBytes ∧ p.bytes.contains nul = false)
    (last : LastName) :
    t.locate last p = t.walk last maxLinks (t.startOf p) (Path.segments p.bytes) := by
  obtain ⟨spelled, short, noNul⟩ := fits
  rw [locate, if_neg fun long => Nat.not_lt.2 short long.1, trace, noNul, if_neg (by simp),
    if_neg (by simpa using spelled)]

/-- A path that leads somewhere is not empty, and it is walked along. -/
theorem locate_eq_walk {last : LastName} {p : Path} {target : Location}
    (h : t.locate last p = .ok target) :
    p.bytes ≠ [] ∧ ∀ last', t.locate last' p =
      t.walk last' maxLinks (t.startOf p) (Path.segments p.bytes) := by
  unfold locate trace at h
  split at h
  · contradiction
  · split at h
    · contradiction
    · split at h
      · contradiction
      · rename_i short noNul spelled
        refine ⟨by simpa using spelled, fun last' => ?_⟩
        rw [locate, if_neg short, trace, if_neg noNul, if_neg spelled]

theorem locate_keep {p : Path} {target : Location} (h : t.locate .follow p = .ok target) :
    t.SameOrLink target (t.locate .keep p) := by
  have walks := (locate_eq_walk h).2
  rw [walks] at h ⊢
  exact walk_keep h

/-! ## Flat and nested trees -/

/-- A disk can hold a tree in which everything lies in the root. -/
theorem wellFormed_of_flat (distinct : (t.nodes.map (·.1)).Nodup)
    (named : ∀ e ∈ t.nodes, e.1 ≠ [] ∧ ∀ n ∈ e.1, isName n)
    (flat : ∀ e ∈ t.nodes, e.1.dropLast = []) (cwd : t.cwd = []) : t.WellFormed where
  distinct := distinct
  named := named
  inDirectory e there := by rw [flat e there]; rfl
  cwd_directory := by rw [cwd]; rfl

/-- Directories one inside the other, and a file in the last one. -/
def nested (dirs : List Bytes) (name : Bytes) (bytes : ByteArray) : FileTree where
  nodes := (dirs ++ [name], .file bytes) ::
    (List.range dirs.length).map fun i => (dirs.take (i + 1), .directory)
  cwd := []

theorem nested_distinct (dirs : List Bytes) (name : Bytes) (bytes : ByteArray) :
    ((nested dirs name bytes).nodes.map (·.1)).Nodup := by
  rw [nested, List.map_cons, List.map_map, List.nodup_cons]
  constructor
  · intro there
    obtain ⟨i, _, same⟩ := List.mem_map.1 there
    have := congrArg List.length same
    simp at this
    omega
  · refine List.Nodup.map_on (fun i hi j hj same => ?_) List.nodup_range
    have := congrArg List.length same
    simp at this hi hj
    omega

theorem node?_nested (dirs : List Bytes) (name : Bytes) (bytes : ByteArray) :
    (nested dirs name bytes).node? (dirs ++ [name]) = some (.file bytes) :=
  node?_of_mem_nodes (nested_distinct ..) (by simp) (List.mem_cons_self ..)

theorem node?_nested_take (dirs : List Bytes) (name : Bytes) (bytes : ByteArray) {k : Nat}
    (inside : k ≤ dirs.length) : (nested dirs name bytes).node? (dirs.take k) =
      some .directory := by
  cases k with
  | zero => rfl
  | succ i =>
    refine node?_of_mem_nodes (nested_distinct ..) ?_ (List.mem_cons_of_mem _ ?_)
    · intro empty
      have := congrArg List.length empty
      rw [List.length_take, List.length_nil] at this
      omega
    · exact List.mem_map.2 ⟨i, List.mem_range.2 inside, rfl⟩

theorem eq_of_node?_nested {dirs : List Bytes} {name : Bytes} {bytes found : ByteArray}
    (h : (nested dirs name bytes).node? loc = some (.file found)) : loc = dirs ++ [name] := by
  have below : loc ≠ [] := by
    rintro rfl
    cases h
  rcases List.mem_cons.1 (mem_nodes_of_node? below h) with same | there
  · exact congrArg Prod.fst same
  · obtain ⟨i, -, same⟩ := List.mem_map.1 there
    cases same

/-- The path `.` leads to the root of such a tree, its working directory. -/
theorem locate_here (dirs : List Bytes) (name : Bytes) (bytes : ByteArray) :
    (nested dirs name bytes).locate .follow (.ofString ".") = .ok [] := by
  rw [locate_of_fits (by decide)]
  exact (walk_idle ⟨rfl, rfl⟩ rfl).trans (walk_nil ..)

theorem nested_wellFormed {dirs : List Bytes} {name : Bytes}
    (named : ∀ n ∈ dirs ++ [name], isName n = true)
    (bytes : ByteArray) : (nested dirs name bytes).WellFormed where
  distinct := nested_distinct ..
  named e there := by
    rcases List.mem_cons.1 there with rfl | there
    · exact ⟨by simp, named⟩
    · obtain ⟨i, inside, rfl⟩ := List.mem_map.1 there
      refine ⟨?_, fun n member => named n (List.mem_append_left _ (List.mem_of_mem_take member))⟩
      have : dirs ≠ [] := by
        rintro rfl
        simp at inside
      simpa using this
  inDirectory e there := by
    rcases List.mem_cons.1 there with rfl | there
    · have whole := node?_nested_take dirs name bytes (Nat.le_refl _)
      simpa using whole
    · obtain ⟨i, inside, rfl⟩ := List.mem_map.1 there
      have inside : i < dirs.length := List.mem_range.1 inside
      have above : (dirs.take (i + 1)).dropLast = dirs.take i := by
        rw [List.dropLast_eq_take, List.take_take, List.length_take]
        congr 1
        omega
      rw [above]
      exact node?_nested_take dirs name bytes (Nat.le_of_lt inside)
  cwd_directory := rfl

end FileTree

end CodeGauge
