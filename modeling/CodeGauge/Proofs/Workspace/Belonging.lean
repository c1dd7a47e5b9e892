import CodeGauge.Proofs.FileTree.LookUps
import CodeGauge.Workspace.Saves

/-!
# What belongs to a workspace

The files of a workspace are found in two ways: all at once by a walk through the tree, and one by
one as changes are told. The walk looks at the name of each directory before it enters it, while a
changed path is cut at the root and its components are looked at.

* `mem_filesBelow`: the walk finds the files that it gets to (`OpenWay`), by induction on its
  levels;
* `gathered_iff_saved`: the two ways agree on every file below the root, except that the walk leaves
  out directories that it cannot open and list.
-/

namespace CodeGauge

namespace Workspace

variable {t : FileTree} {root : Path} {loc : Location} {names : List Bytes} {bytes : ByteArray}
variable {extension : Text} {excluded : List Text}

/-! ## The walk -/

theorem filesBelow_of_closed {levels : Nat} {dir : Path} (closed : (t.list dir).isOk = false) :
    filesBelow t excluded levels dir = [] := by
  cases levels with
  | zero => rfl
  | succ levels =>
    rw [filesBelow]
    cases listed : t.list dir with
    | error cause => rfl
    | ok entries => simp [listed, Except.isOk, Except.toBool] at closed

/-- What a walk finds in a directory that is listed: a file there, or what it finds in a directory
that it enters. -/
theorem mem_filesBelow_succ {levels : Nat} {dir p : Path}
    (listed : t.list dir = .ok (t.entriesAt loc)) :
    p ∈ filesBelow t excluded (levels + 1) dir ↔
      (∃ n bytes, (loc ++ [n], Node.file bytes) ∈ t.nodes ∧ p = dir.join n) ∨
        ∃ n, (loc ++ [n], Node.directory) ∈ t.nodes ∧ isExcluded excluded n = false ∧
          p ∈ filesBelow t excluded levels (dir.join n) := by
  simp only [filesBelow, listed, List.mem_flatMap]
  constructor
  · rintro ⟨⟨n, node⟩, entry, found⟩
    have there := FileTree.mem_entriesAt.1 entry
    cases node with
    | file bytes => exact .inl ⟨n, bytes, there, by simpa using found⟩
    | directory =>
      simp only at found
      split at found
      · simp at found
      · rename_i entered
        exact .inr ⟨n, there, Bool.not_eq_true _ ▸ entered, found⟩
    | link target => simp at found
  · rintro (⟨n, bytes, there, rfl⟩ | ⟨n, there, entered, found⟩)
    · exact ⟨(n, .file bytes), FileTree.mem_entriesAt.2 there, by simp⟩
    · refine ⟨(n, .directory), FileTree.mem_entriesAt.2 there, ?_⟩
      simp only [entered, Bool.false_eq_true, if_false]
      exact found

/-- Whether a walk gets from a directory to a file: no directory on the way has an excluded name,
and each of them can be opened and listed by its path. -/
structure OpenWay (t : FileTree) (excluded : List Text) (dir : Path)
    (names : List Bytes) : Prop where
  allowed : names.dropLast.any (isExcluded excluded) = false
  opened : ∀ front, front <+: names.dropLast → (t.list (dir.joinAll front)).isOk = true

theorem openWay_singleton {dir : Path} {n : Bytes} :
    OpenWay t excluded dir [n] ↔ (t.list dir).isOk = true := by
  refine ⟨fun way => way.opened [] (List.nil_prefix), fun opened => ⟨rfl, fun front start => ?_⟩⟩
  rw [List.prefix_nil.1 start]
  exact opened

theorem openWay_cons {dir : Path} {n : Bytes} (some_name : names ≠ []) :
    OpenWay t excluded dir (n :: names) ↔
      (t.list dir).isOk = true ∧ isExcluded excluded n = false ∧
        OpenWay t excluded (dir.join n) names := by
  have above : (n :: names).dropLast = n :: names.dropLast := List.dropLast_cons_of_ne_nil some_name
  constructor
  · rintro ⟨allowed, opened⟩
    rw [above] at allowed opened
    obtain ⟨entered, allowed⟩ := Bool.or_eq_false_iff.1 (List.any_cons ▸ allowed)
    refine ⟨opened [] List.nil_prefix, entered, allowed, fun front start => ?_⟩
    exact opened (n :: front) (List.cons_prefix_cons.2 ⟨rfl, start⟩)
  · rintro ⟨here, entered, allowed, opened⟩
    refine ⟨by rw [above, List.any_cons, entered, allowed]; rfl, fun front start => ?_⟩
    rw [above] at start
    rcases List.prefix_cons_iff.1 start with rfl | ⟨rest, rfl, later⟩
    · exact here
    · exact opened rest later

/-- A walk finds the files that it gets to, down to its number of levels, below the only place where
the path it starts with can lead. -/
theorem mem_filesBelow (wf : t.WellFormed) {levels : Nat} {dir p : Path}
    (leads : ∀ place, t.locate .follow dir = .ok place → place = loc) :
    p ∈ filesBelow t excluded levels dir ↔
      ∃ names bytes, (loc ++ names, Node.file bytes) ∈ t.nodes ∧ names ≠ [] ∧
        names.length ≤ levels ∧ OpenWay t excluded dir names ∧ dir.joinAll names = p := by
  induction levels generalizing dir loc with
  | zero =>
    simp only [filesBelow, List.not_mem_nil, false_iff]
    rintro ⟨names, _, _, some_name, short, _⟩
    exact some_name (List.length_eq_zero_iff.1 (Nat.le_zero.1 short))
  | succ levels ih =>
    by_cases opened : (t.list dir).isOk = true
    · obtain ⟨place, found, directory, allowed⟩ := FileTree.isOk_list_iff.1 opened
      obtain rfl := leads place found
      have listed : t.list dir = .ok (t.entriesAt place) :=
        FileTree.list_eq_ok_iff.2 ⟨place, found, allowed, directory, rfl⟩
      -- In a directory that is entered, the path leads there and nowhere else.
      have below {n : Bytes} (there : (place ++ [n], Node.directory) ∈ t.nodes) (other : Location)
          (found' : t.locate .follow (dir.join n) = .ok other) : other = place ++ [n] :=
        FileTree.eq_of_locate_join wf found
          (FileTree.node?_of_mem_nodes wf.distinct (by simp) there) (by simp) found'
      rw [mem_filesBelow_succ listed]
      constructor
      · rintro (⟨n, bytes, there, rfl⟩ | ⟨n, there, entered, within⟩)
        · exact ⟨[n], bytes, there, by simp, by simp, openWay_singleton.2 opened, rfl⟩
        · obtain ⟨names, bytes, deeper, some_name, short, way, rfl⟩ := (ih (below there)).1 within
          exact ⟨n :: names, bytes, by simpa using deeper, by simp, by simpa using short,
            (openWay_cons some_name).2 ⟨opened, entered, way⟩, rfl⟩
      · rintro ⟨names, bytes, deeper, some_name, short, way, rfl⟩
        obtain ⟨n, rest, rfl⟩ := List.exists_cons_of_ne_nil some_name
        by_cases last : rest = []
        · subst last
          exact .inl ⟨n, bytes, deeper, rfl⟩
        · obtain ⟨-, entered, way⟩ := (openWay_cons last).1 way
          have deeper : (place ++ [n] ++ rest, Node.file bytes) ∈ t.nodes := by simpa using deeper
          have there := FileTree.mem_nodes_of_node? (by simp) (wf.node?_above last
            (FileTree.node?_of_mem_nodes wf.distinct (by simp) deeper))
          exact .inr ⟨n, there, entered,
            (ih (below there)).2 ⟨rest, bytes, deeper, last, by simpa using short, way, rfl⟩⟩
    · have closed : (t.list dir).isOk = false := by simpa using opened
      rw [filesBelow_of_closed closed]
      refine iff_of_false (by simp) ?_
      rintro ⟨names, bytes, -, -, -, way, -⟩
      exact opened (way.opened [] List.nil_prefix)

/-- Unless a root is a file, the walk goes through all levels below it. -/
theorem gather_eq (other : ∀ place bytes, t.locate .keep root = .ok place →
    t.node? place ≠ some (.file bytes)) :
    gather t root extension excluded =
      ((filesBelow t excluded t.height root).filter (·.hasExtension extension)).mergeSort
        Path.le := by
  -- What is not found with its last link kept cannot be listed either.
  have nowhere (gone : (t.locate .keep root).toOption.bind t.node? = none) :
      filesBelow t excluded t.height root = [] := by
    refine filesBelow_of_closed (Bool.eq_false_iff.2 fun opened => ?_)
    obtain ⟨loc, leads, directory, -⟩ := FileTree.isOk_list_iff.1 opened
    rcases FileTree.locate_keep leads with same | ⟨place, text, kept, link⟩
    · simp [same, directory, Except.toOption] at gone
    · simp [kept, link, Except.toOption] at gone
  rw [gather]
  split
  · rename_i gone
    rw [nowhere gone]
  · rename_i bytes found
    cases kept : t.locate .keep root with
    | error cause => simp [kept, Except.toOption] at found
    | ok place =>
      exact absurd (by simpa [kept, Except.toOption] using found) (other place bytes kept)
  · rfl

/-- A file is gathered if it has the extension and the walk gets to it. -/
theorem mem_gather (wf : t.WellFormed) (leads : t.locate .follow root = .ok loc)
    (some_name : names ≠ []) (file : t.node? (loc ++ names) = some (.file bytes)) :
    root.joinAll names ∈ gather t root extension excluded ↔
      (root.joinAll names).hasExtension extension = true ∧ OpenWay t excluded root names := by
  have spelled := (FileTree.locate_eq_walk leads).1
  have named := wf.isName_of_node? some_name file
  have only (place : Location) (found : t.locate .follow root = .ok place) : place = loc :=
    Except.ok.inj (found.symm.trans leads)
  have other (place : Location) (bytes : ByteArray) (kept : t.locate .keep root = .ok place) :
      t.node? place ≠ some (.file bytes) := by
    rcases FileTree.locate_keep leads with same | ⟨place', text, same, link⟩
    · obtain rfl := Except.ok.inj (kept.symm.trans same)
      simp [wf.node?_above some_name file]
    · obtain rfl := Except.ok.inj (kept.symm.trans same)
      simp [link]
  rw [gather_eq other, List.mem_mergeSort, List.mem_filter, and_comm, mem_filesBelow wf only]
  refine and_congr_right fun _ => ?_
  constructor
  · rintro ⟨others, _, there, _, _, way, same⟩
    -- Only one list of names leads to this path.
    obtain rfl : others = names := by
      refine Path.joinAll_inj spelled (fun n member => ?_) named same
      exact (wf.named _ there).2 n (List.mem_append_right loc member)
    exact way
  · intro way
    have there := FileTree.mem_nodes_of_node? (by simp [some_name]) file
    have levels := FileTree.length_le_height there
    rw [List.length_append] at levels
    exact ⟨names, bytes, there, some_name, by omega, way, rfl⟩

/-! ## Saves -/

theorem inExcluded_joinAll (spelled : root.bytes ≠ []) (h : ∀ n ∈ names, FileTree.isName n = true) :
    inExcluded (root.joinAll names) root excluded = names.dropLast.any (isExcluded excluded) := by
  rw [inExcluded, Path.below?_joinAll spelled h, Option.getD_some, ← List.map_dropLast,
    List.any_map]
  rfl

theorem mem_savedPaths (spelled : root.bytes ≠ []) (named : ∀ n ∈ names, FileTree.isName n = true)
    {kind : ChangeKind} (save : kind.isSave = true) {paths : List Path}
    (listed : root.joinAll names ∈ paths) :
    root.joinAll names ∈ savedPaths kind paths root extension excluded ↔
      (root.joinAll names).hasExtension extension = true ∧
        names.dropLast.any (isExcluded excluded) = false := by
  rw [savedPaths, if_pos save, List.mem_filter, inExcluded_joinAll spelled named]
  simp [listed]

/-- A file counts as saved, whenever it is created or its contents are modified, if it has the
extension and lies in no excluded directory. -/
theorem always_saved_iff (spelled : root.bytes ≠ [])
    (named : ∀ n ∈ names, FileTree.isName n = true) :
    (∀ kind ∈ [ChangeKind.created, ChangeKind.modified], ∀ paths, root.joinAll names ∈ paths →
        root.joinAll names ∈ savedPaths kind paths root extension excluded) ↔
      (root.joinAll names).hasExtension extension = true ∧
        names.dropLast.any (isExcluded excluded) = false := by
  constructor
  · intro kept
    have only := kept .created (by simp) [root.joinAll names] (by simp)
    exact (mem_savedPaths spelled named rfl (by simp)).1 only
  · intro belongs kind member paths listed
    have save : ∀ kind ∈ [ChangeKind.created, ChangeKind.modified], kind.isSave = true := by decide
    exact (mem_savedPaths spelled named (save kind member) listed).2 belongs

/-! ## Both together -/

/-- A regular file below the root is gathered if and only if every directory from the root down to
its own can be opened and listed, and it counts as saved whenever it is created or its contents are
modified. -/
theorem gathered_iff_saved (wf : t.WellFormed) (leads : t.locate .follow root = .ok loc)
    (some_name : names ≠ []) (file : t.node? (loc ++ names) = some (.file bytes))
    (extension : Text) (excluded : List Text) :
    root.joinAll names ∈ gather t root extension excluded ↔
      (∀ front, front <+: names.dropLast → (t.list (root.joinAll front)).isOk = true) ∧
        ∀ kind ∈ [ChangeKind.created, ChangeKind.modified], ∀ paths, root.joinAll names ∈ paths →
          root.joinAll names ∈ savedPaths kind paths root extension excluded := by
  have spelled := (FileTree.locate_eq_walk leads).1
  have named := wf.isName_of_node? some_name file
  rw [mem_gather wf leads some_name file, always_saved_iff spelled named]
  constructor
  · rintro ⟨matching, allowed, opened⟩
    exact ⟨opened, matching, allowed⟩
  · rintro ⟨opened, matching, allowed⟩
    exact ⟨matching, allowed, opened⟩

/-- A tree with a source two directories deep. -/
def buildTree : FileTree := .nested [utf8 "build", utf8 "src"] (utf8 "A.java") .empty

theorem buildTree_directory (k : Nat) (inside : k ≤ 2) :
    buildTree.node? ([utf8 "build", utf8 "src"].take k) = some .directory :=
  FileTree.node?_nested_take _ _ .empty inside

/-- A workspace may lie in a directory with an excluded name, and a source may have an excluded
name. -/
theorem build_source_is_gathered :
    Path.ofString "./build//src/A.java" ∈
      gather buildTree (.ofString "./build//") "java".toList ["build".toList, "A.java".toList] := by
  have outer : buildTree.Searchable [utf8 "build"] := ⟨buildTree_directory 1 (by decide), rfl⟩
  have inner : buildTree.node? [utf8 "build", utf8 "src"] = some .directory :=
    buildTree_directory 2 (by decide)
  have leads : buildTree.locate .follow (.ofString "./build//") = .ok [utf8 "build"] := by
    rw [FileTree.locate_of_fits (by decide)]
    calc buildTree.walk .follow FileTree.maxLinks [] [[Path.dot], utf8 "build", [], []]
      _ = buildTree.walk .follow FileTree.maxLinks [] [utf8 "build", [], []] :=
        FileTree.walk_idle ⟨rfl, rfl⟩ rfl
      _ = buildTree.walk .follow FileTree.maxLinks [utf8 "build"] [[], []] :=
        FileTree.walk_enter ⟨rfl, rfl⟩ (by decide) outer.directory
      _ = .ok [utf8 "build"] := FileTree.walk_idles outer (by decide)
  have leads' : buildTree.locate .follow (.ofString "./build//src") =
      .ok [utf8 "build", utf8 "src"] := by
    rw [FileTree.locate_of_fits (by decide)]
    calc buildTree.walk .follow FileTree.maxLinks [] [[Path.dot], utf8 "build", [], utf8 "src"]
      _ = buildTree.walk .follow FileTree.maxLinks [] [utf8 "build", [], utf8 "src"] :=
        FileTree.walk_idle ⟨rfl, rfl⟩ rfl
      _ = buildTree.walk .follow FileTree.maxLinks [utf8 "build"] [[], utf8 "src"] :=
        FileTree.walk_enter ⟨rfl, rfl⟩ (by decide) outer.directory
      _ = buildTree.walk .follow FileTree.maxLinks [utf8 "build"] [utf8 "src"] :=
        FileTree.walk_empty outer.directory
      _ = .ok [utf8 "build", utf8 "src"] := FileTree.walk_last outer (by decide) inner (by simp)
  have file : buildTree.node? ([utf8 "build"] ++ [utf8 "src", utf8 "A.java"]) =
      some (.file .empty) :=
    FileTree.node?_nested ..
  have named : ∀ n ∈ [utf8 "src", utf8 "A.java"], FileTree.isName n = true := by decide
  have agree :=
    gathered_iff_saved (FileTree.nested_wellFormed (by decide) .empty) leads (by decide) file
    "java".toList ["build".toList, "A.java".toList]
  refine agree.2 ⟨fun front start => ?_,
    (always_saved_iff (by decide) named).2 ⟨by decide, by decide⟩⟩
  rcases List.prefix_cons_iff.1 start with rfl | ⟨rest, rfl, later⟩
  · exact FileTree.isOk_list_iff.2 ⟨_, leads, outer.directory, rfl⟩
  · rw [List.prefix_nil.1 later]
    exact FileTree.isOk_list_iff.2 ⟨_, leads', inner, rfl⟩

/-- Names whose path is longer than a path may be. -/
def deepNames : List Bytes := List.replicate 17 (List.replicate 250 0x64)

theorem isName_deepNames : ∀ n ∈ deepNames ++ [utf8 "X.java"], FileTree.isName n = true := by
  intro n there
  rcases List.mem_append.1 there with dir | file
  · rw [List.eq_of_mem_replicate dir]
    decide +kernel
  · rw [List.mem_singleton.1 file]
    decide

theorem deepNames_long (root : Path) :
    FileTree.maxPathBytes < (root.joinAll deepNames).bytes.length := by
  have total : deepNames.flatten.length = 4250 := by decide +kernel
  have least := Path.length_joinAll root deepNames
  have most : FileTree.maxPathBytes = 4095 := rfl
  omega

/-- A source in a directory that cannot be opened by its path. -/
def deepTree : FileTree := .nested deepNames (utf8 "X.java") .empty

theorem deepTree_wellFormed : deepTree.WellFormed :=
  FileTree.nested_wellFormed isName_deepNames .empty

theorem node?_deepTree :
    deepTree.node? ([] ++ (deepNames ++ [utf8 "X.java"])) = some (.file .empty) :=
  FileTree.node?_nested ..

theorem list_deepNames (root : Path) : (deepTree.list (root.joinAll deepNames)).isOk = false := by
  refine Bool.eq_false_iff.2 fun opened => ?_
  obtain ⟨place, found, -⟩ := FileTree.isOk_list_iff.1 opened
  exact Nat.not_le.2 (deepNames_long root) (FileTree.length_le_of_locate found)

/-- A file whose directory cannot be opened still counts when it is saved. -/
theorem deep_file_is_saved_but_not_gathered :
    ∃ (t : FileTree) (root : Path) (loc : Location) (names : List Bytes) (bytes : ByteArray)
      (extension : Text) (excluded : List Text),
      t.WellFormed ∧ t.locate .follow root = .ok loc ∧ names ≠ [] ∧
        t.node? (loc ++ names) = some (.file bytes) ∧
        (∀ kind ∈ [ChangeKind.created, ChangeKind.modified], ∀ paths, root.joinAll names ∈ paths →
          root.joinAll names ∈ savedPaths kind paths root extension excluded) ∧
        root.joinAll names ∉ gather t root extension excluded := by
  have leads : deepTree.locate .follow (.ofString ".") = .ok [] := FileTree.locate_here ..
  have some_name : deepNames ++ [utf8 "X.java"] ≠ [] := by simp
  have spelled : (Path.ofString ".").bytes ≠ [] := by decide
  refine ⟨deepTree, .ofString ".", [], _, .empty, "java".toList, [], deepTree_wellFormed,
    leads, some_name, node?_deepTree,
    (always_saved_iff spelled isName_deepNames).2 ⟨?_, by simp [isExcluded]⟩, ?_⟩
  · rw [Path.hasExtension_joinAll spelled isName_deepNames]
    decide
  · rw [mem_gather deepTree_wellFormed leads some_name node?_deepTree]
    rintro ⟨_, way⟩
    have opened := way.opened deepNames (by simp)
    exact Bool.eq_false_iff.1 (list_deepNames _) opened

end Workspace

end CodeGauge
