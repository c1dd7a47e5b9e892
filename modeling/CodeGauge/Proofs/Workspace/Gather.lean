import Mathlib.Data.Set.List
import CodeGauge.Proofs.Workspace.Belonging

/-!
# The sources of a workspace

From a root without links in its path, the walk through a workspace finds its sources (`IsSource`),
and it finds each of them once (`gather_places`).
-/

namespace CodeGauge

variable {t : FileTree} {loc root place : Location} {excluded : List Text} {extension : Text}

namespace FileTree

theorem entriesAt_distinct (wf : t.WellFormed) (loc : Location) :
    (t.entriesAt loc).Pairwise fun e f => e.1 ≠ f.1 := by
  have located {a : Location × Node} {e : Bytes × Node}
      (entry : (if a.1.dropLast = loc then a.1.getLast?.map (·, a.2) else none) = some e) :
      a.1 = loc ++ [e.1] := by
    obtain ⟨above, found⟩ := Option.ite_none_right_eq_some.1 entry
    obtain ⟨last, same, rfl⟩ := Option.map_eq_some_iff.1 found
    obtain ⟨front, split⟩ := List.getLast?_eq_some_iff.1 same
    rw [split, List.dropLast_concat] at above
    rw [split, above]
  rw [entriesAt, List.pairwise_filterMap]
  refine (List.pairwise_map.1 wf.distinct).imp fun {a b} apart e he f hf same => apart ?_
  rw [located he, located hf, same]

end FileTree

namespace Workspace

/-- What a walk finds at an entry of a directory. -/
def filesAt (t : FileTree) (excluded : List Text) (levels : Nat) (dir : Path) (e : Bytes × Node) :
    List Path :=
  match e.2 with
  | .file _ => [dir.join e.1]
  | .directory =>
    if isExcluded excluded e.1 then [] else filesBelow t excluded levels (dir.join e.1)
  | .link _ => []

theorem filesBelow_succ {levels : Nat} {dir : Path} {entries : List (Bytes × Node)}
    (listed : t.list dir = .ok entries) :
    filesBelow t excluded (levels + 1) dir = entries.flatMap (filesAt t excluded levels dir) := by
  rw [filesBelow, listed]
  rfl

/-- What is found at an entry has its name after that of the directory. -/
theorem exists_joinAll_of_mem_filesAt (wf : t.WellFormed) {levels : Nat} {dir p : Path}
    {e : Bytes × Node} (leads : t.locate .follow dir = .ok loc) (entry : e ∈ t.entriesAt loc)
    (found : p ∈ filesAt t excluded levels dir e) :
    ∃ rest, (∀ n ∈ e.1 :: rest, FileTree.isName n = true) ∧ dir.joinAll (e.1 :: rest) = p := by
  obtain ⟨name, node⟩ := e
  have there := FileTree.mem_entriesAt.1 entry
  have named := (wf.named _ there).2 name (by simp)
  cases node with
  | file bytes => exact ⟨[], by simpa using named, (List.mem_singleton.1 found).symm⟩
  | directory =>
    simp only [filesAt] at found
    split at found
    · simp at found
    · have below (place : Location) (found' : t.locate .follow (dir.join name) = .ok place) :
          place = loc ++ [name] :=
        FileTree.eq_of_locate_join wf leads
          (FileTree.node?_of_mem_nodes wf.distinct (by simp) there) (by simp) found'
      obtain ⟨rest, bytes, deeper, -, -, -, same⟩ := (mem_filesBelow wf below).1 found
      refine ⟨rest, fun n member => (wf.named _ deeper).2 n ?_, same⟩
      simpa [or_assoc] using Or.inr member
  | link target => simp [filesAt] at found

/-- A walk finds no file twice: two entries of a directory differ by name, and so does all that is
found at them. -/
theorem filesBelow_nodup (wf : t.WellFormed) {levels : Nat} {dir : Path}
    (spelled : dir.bytes ≠ []) :
    (filesBelow t excluded levels dir).Nodup := by
  induction levels generalizing dir with
  | zero => exact List.nodup_nil
  | succ levels ih =>
    cases listed : t.list dir with
    | error cause =>
      rw [filesBelow, listed]
      exact List.nodup_nil
    | ok entries =>
      obtain ⟨loc, leads, -, -, rfl⟩ := FileTree.list_eq_ok_iff.1 listed
      rw [filesBelow_succ listed]
      refine List.nodup_flatMap.2 ⟨fun e _ => ?_, ?_⟩
      · unfold filesAt
        split
        · exact List.nodup_singleton _
        · split
          · exact List.nodup_nil
          · exact ih (Path.join_ne_nil spelled _)
        · exact List.nodup_nil
      · refine (FileTree.entriesAt_distinct wf loc).imp_of_mem fun {e f} he hf apart p hp hp' => ?_
        obtain ⟨rest, named, rfl⟩ := exists_joinAll_of_mem_filesAt wf leads he hp
        obtain ⟨rest', named', same⟩ := exists_joinAll_of_mem_filesAt wf leads hf hp'
        exact apart (List.cons.inj (Path.joinAll_inj spelled named' named same)).1.symm

/-- Whether a source stands at a location: a regular file with the extension, in directories that
have no excluded name below the root and can be opened and listed by their paths. -/
structure IsSource (t : FileTree) (extension : Text) (excluded : List Text)
    (root place : Location) :
    Prop where
  file : ∃ bytes, t.node? place = some (.file bytes)
  extension_eq : (FileTree.pathOf place).extension? = some extension.utf8
  allowed : ∃ names, names ≠ [] ∧ place = root ++ names ∧
    ∀ dir ∈ names.dropLast, isExcluded excluded dir = false
  opened : ∀ dir, root <+: dir → dir <+: place.dropLast → (t.list (FileTree.pathOf dir)).isOk = true

theorem IsSource.isName (wf : t.WellFormed) (source : IsSource t extension excluded root place) :
    ∀ n ∈ place, FileTree.isName n = true := by
  obtain ⟨bytes, file⟩ := source.file
  exact wf.isName_of_located file

/-- The path of the directory of a source leads there. -/
theorem IsSource.locate_directory (wf : t.WellFormed) {dir : Location} {n : Bytes}
    (source : IsSource t extension excluded root (dir ++ [n])) :
    t.locate .follow (FileTree.pathOf dir) = .ok dir := by
  obtain ⟨bytes, file⟩ := source.file
  obtain ⟨names, some_name, same, -⟩ := source.allowed
  have above : dir = root ++ names.dropLast := by
    rw [← List.dropLast_append_of_ne_nil some_name, ← same, List.dropLast_concat]
  have opened := source.opened dir (above ▸ List.prefix_append ..) (by simp)
  obtain ⟨place, found, -⟩ := FileTree.isOk_list_iff.1 opened
  rw [found, FileTree.eq_of_locate_pathOf wf (wf.node?_above (by simp) file) found]

theorem openWay_pathOf {names : List Bytes} (some_name : names ≠ [])
    (named : ∀ n ∈ root ++ names, FileTree.isName n = true) :
    OpenWay t excluded (FileTree.pathOf root) names ↔
      (∀ dir ∈ names.dropLast, isExcluded excluded dir = false) ∧
        ∀ dir, root <+: dir → dir <+: (root ++ names).dropLast →
          (t.list (FileTree.pathOf dir)).isOk = true := by
  have path {front : List Bytes} (start : front <+: names.dropLast) :
      (FileTree.pathOf root).joinAll front = FileTree.pathOf (root ++ front) := by
    refine Path.joinAll_pathOf fun n there => named n ?_
    rcases List.mem_append.1 there with there | there
    · exact List.mem_append_left _ there
    · exact List.mem_append_right _ (List.dropLast_subset _ (start.subset there))
  rw [List.dropLast_append_of_ne_nil some_name]
  constructor
  · rintro ⟨allowed, opened⟩
    refine ⟨by simpa using allowed, ?_⟩
    rintro dir ⟨front, rfl⟩ start
    have start := (List.prefix_append_right_inj root).1 start
    exact path start ▸ opened front start
  · rintro ⟨allowed, opened⟩
    refine ⟨by simpa using allowed, fun front start => ?_⟩
    rw [path start]
    exact opened _ (List.prefix_append ..) ((List.prefix_append_right_inj root).2 start)

/-- From a root without links in its path, the walk goes through all levels below it. -/
theorem gather_pathOf (wf : t.WellFormed) (directory : t.node? root = some .directory) :
    gather t (FileTree.pathOf root) extension excluded =
      ((filesBelow t excluded t.height (FileTree.pathOf root)).filter
        (·.hasExtension extension)).mergeSort Path.le := by
  refine gather_eq fun place bytes kept => ?_
  rw [FileTree.eq_of_locate_pathOf wf directory kept, directory]
  simp

/-- The walk from a root without links in its path finds the sources. -/
theorem mem_gather_pathOf (wf : t.WellFormed) (directory : t.node? root = some .directory)
    {p : Path} :
    p ∈ gather t (FileTree.pathOf root) extension excluded ↔
      ∃ place, IsSource t extension excluded root place ∧ FileTree.pathOf place = p := by
  rw [gather_pathOf wf directory, List.mem_mergeSort, List.mem_filter,
    mem_filesBelow wf fun place => FileTree.eq_of_locate_pathOf wf directory]
  constructor
  · rintro ⟨⟨names, bytes, there, some_name, -, way, rfl⟩, matching⟩
    have named := (wf.named _ there).2
    rw [Path.joinAll_pathOf named] at matching ⊢
    obtain ⟨allowed, opened⟩ := (openWay_pathOf some_name named).1 way
    exact ⟨_, ⟨⟨bytes, FileTree.node?_of_mem_nodes wf.distinct (by simp [some_name]) there⟩,
      by simpa [Path.hasExtension] using matching, ⟨names, some_name, rfl, allowed⟩, opened⟩, rfl⟩
  · rintro ⟨place, source, rfl⟩
    have named := source.isName wf
    have opened := source.opened
    obtain ⟨bytes, file⟩ := source.file
    obtain ⟨names, some_name, rfl, allowed⟩ := source.allowed
    have there := FileTree.mem_nodes_of_node? (by simp [some_name]) file
    have levels := FileTree.length_le_height there
    rw [List.length_append] at levels
    exact ⟨⟨names, bytes, there, some_name, by omega,
      (openWay_pathOf some_name named).2 ⟨allowed, opened⟩, Path.joinAll_pathOf named⟩,
      by simpa [Path.hasExtension] using source.extension_eq⟩

theorem gather_nodup (wf : t.WellFormed) (directory : t.node? root = some .directory) :
    (gather t (FileTree.pathOf root) extension excluded).Nodup := by
  rw [gather_pathOf wf directory, (List.mergeSort_perm ..).nodup_iff]
  exact (filesBelow_nodup wf (by simp [FileTree.pathOf])).filter _

/-- What is gathered are the paths of the sources, each of them once. -/
theorem gather_places (wf : t.WellFormed) (directory : t.node? root = some .directory)
    (extension : Text) (excluded : List Text) :
    ∃ places : List Location, places.Nodup ∧
      (∀ place, place ∈ places ↔ IsSource t extension excluded root place) ∧
      gather t (FileTree.pathOf root) extension excluded = places.map FileTree.pathOf := by
  have placed : gather t (FileTree.pathOf root) extension excluded ∈ Set.range
      (List.map fun place : { place // IsSource t extension excluded root place } =>
        FileTree.pathOf place.1) := by
    rw [Set.range_list_map]
    intro p there
    obtain ⟨place, source, same⟩ := (mem_gather_pathOf wf directory).1 there
    exact ⟨⟨place, source⟩, same⟩
  obtain ⟨sources, same⟩ := placed
  have once : (gather t (FileTree.pathOf root) extension excluded).Nodup :=
    gather_nodup wf directory
  refine ⟨sources.map (·.1), ?_, fun place => ⟨?_, fun source => ?_⟩, ?_⟩
  · apply List.Nodup.of_map FileTree.pathOf
    rw [List.map_map]
    exact same ▸ once
  · intro there
    obtain ⟨source, -, rfl⟩ := List.mem_map.1 there
    exact source.2
  · have there := (mem_gather_pathOf wf directory).2 ⟨place, source, rfl⟩
    rw [← same] at there
    obtain ⟨other, listed, spelled⟩ := List.mem_map.1 there
    obtain rfl := Path.pathOf_inj (other.2.isName wf) (source.isName wf) spelled
    exact List.mem_map_of_mem listed
  · rw [List.map_map]
    exact same.symm

end Workspace

end CodeGauge
