import CodeGauge.Proofs.Text.Utf8
import CodeGauge.Proofs.Workspace.Gather
import CodeGauge.Proofs.Workspace.Spellings

/-!
# Siblings

The siblings of a path are the other sources in its directory that can be read (`IsSibling`), each
once and in the order of their names, and nothing else in the directory has a part in the coupling
of the file (`siblings_are_exact`). An entry is looked up below the directory as that is spelled, so
a source whose path is too long that way is left out (`long_sibling_is_left_out`). The file itself
is left out by its name, so it can only be its own sibling through a link
(`linked_file_is_its_own_sibling`).
-/

namespace CodeGauge

namespace FileTree

variable {t : FileTree} {p dir : Path} {loc place : Location} {name : Bytes} {text : Text}

/-- Whether the directory at a location has a file under a name: the file itself, or a link that
leads to it if as many links as it takes are followed. -/
inductive HoldsFile (t : FileTree) (loc : Location) (name : Bytes) (bytes : ByteArray) : Prop where
  | regular (file : t.node? (loc ++ [name]) = some (.file bytes))
  | linked {target : Bytes} {links : Nat} {place : Location}
      (link : t.node? (loc ++ [name]) = some (.link target))
      (leads : t.walk .follow links loc [name] = .ok place)
      (file : t.node? place = some (.file bytes))

/-- A file that is found below the path of a directory is one that the directory has. -/
theorem holdsFile_of_locate (wf : t.WellFormed) (leads : t.locate .follow dir = .ok loc)
    {node : Node} (there : t.node? (loc ++ [name]) = some node)
    (found : t.locate .follow (dir.join name) = .ok place) {bytes : ByteArray}
    (file : t.node? place = some (.file bytes)) : t.HoldsFile loc name bytes := by
  have named : isName name = true := wf.isName_of_node? (by simp) there name (by simp)
  cases node with
  | link target =>
    obtain ⟨left, looks⟩ := exists_lookUp_join (trace_of_locate leads)
    have goes := (looks name named).symm.trans (trace_of_locate found)
    rw [lookUp_of_isName named] at goes
    exact .linked there goes file
  | file | directory =>
    obtain rfl := eq_of_locate_join wf leads there (by simp) found
    exact .regular file

/-- A file that a directory has is what is found below the path of the directory, if anything is. -/
theorem HoldsFile.node?_eq {bytes : ByteArray} (held : t.HoldsFile loc name bytes)
    (wf : t.WellFormed) (leads : t.locate .follow dir = .ok loc)
    (found : t.locate .follow (dir.join name) = .ok place) :
    t.node? place = some (.file bytes) := by
  cases held with
  | regular file =>
    obtain rfl := eq_of_locate_join wf leads file (by simp) found
    exact file
  | linked link goes file =>
    have named : isName name = true := wf.isName_of_node? (by simp) link name (by simp)
    obtain ⟨left, looks⟩ := exists_lookUp_join (trace_of_locate leads)
    have goes' := (looks name named).symm.trans (trace_of_locate found)
    rw [lookUp_of_isName named] at goes'
    -- Neither number of links is too small, so that it does not matter how many there are.
    have same := walk_links_agree (iff_of_false (by rw [goes]; simp) (by rw [goes']; simp))
    rw [goes, goes'] at same
    obtain rfl := Except.ok.inj same
    exact file

/-- Only a directory is reached by a segment that says nothing or leads up. -/
theorem directory_of_walk (wf : t.WellFormed) {links : Nat} {start : Location} {segs : List Bytes}
    {segment : Bytes} (nameless : Path.isIdle segment = true ∨ segment = [Path.dot, Path.dot])
    (found : t.walk .follow links start (segs ++ [segment]) = .ok place) :
    t.node? place = some .directory := by
  rcases t.walk_append links start segs with ⟨cause, fails⟩ | ⟨left, target, goes⟩
  · rw [fails] at found
    contradiction
  · rw [goes] at found
    cases here : t.node? target with
    | none => simp [walk, here] at found
    | some node =>
      cases node with
      | file | link => simp [walk, here] at found
      | directory =>
        rcases nameless with idle | rfl
        · rw [eq_of_walk_idles here (by simpa using idle) found]
          exact here
        · cases allowed : t.refusal? target .search with
          | some wording =>
            rw [walk_refused here allowed (by simp)] at found
            contradiction
          | none =>
            rw [walk_up ⟨here, allowed⟩, walk_nil] at found
            obtain rfl := Except.ok.inj found
            rcases List.eq_nil_or_concat' target with rfl | ⟨front, n, rfl⟩
            · exact here
            · exact wf.inDirectory _ (mem_nodes_of_node? (by simp) here)

/-- A path that leads to a file ends in a name. -/
theorem exists_endsIn_of_file (wf : t.WellFormed) (found : t.locate .follow p = .ok place)
    {bytes : ByteArray} (file : t.node? place = some (.file bytes)) :
    ∃ n, p.EndsIn n ∧ n ≠ [Path.dot, Path.dot] := by
  have walks := (locate_eq_walk found).2
  have some_segment : Path.segments p.bytes ≠ [] := Text.splitWhere_ne_nil _ _
  obtain ⟨segs, n, split⟩ :=
    (List.eq_nil_or_concat' (Path.segments p.bytes)).resolve_left some_segment
  rw [walks, split] at found
  have named : ¬ (Path.isIdle n = true ∨ n = [Path.dot, Path.dot]) := fun nameless => by
    simp [directory_of_walk wf nameless found] at file
  exact ⟨n, ⟨by rw [split, List.getLast?_concat], by simpa using fun idle => named (.inl idle)⟩,
    fun up => named (.inr up)⟩

/-- A name under which something is found stands for something. -/
theorem exists_node?_of_lookUp {left : Nat} {n : Bytes} (visible : Path.isIdle n = false)
    (down : n ≠ [Path.dot, Path.dot]) (found : t.lookUp left loc n = .ok place) :
    ∃ node, t.node? (loc ++ [n]) = some node := by
  refine Option.ne_none_iff_exists'.1 fun gone => ?_
  have spelled : n ≠ [] := by
    rintro rfl
    contradiction
  rw [lookUp] at found
  split at found
  · contradiction
  · rw [walk] at found
    cases here : t.node? loc with
    | none => simp [here] at found
    | some node =>
      cases node with
      | file | link => simp [here] at found
      | directory =>
        cases allowed : t.refusal? loc .search with
        | some wording => simp [here, spelled, allowed] at found
        | none =>
          by_cases long : maxNameBytes < n.length <;>
            simp [here, spelled, allowed, visible, down, gone, long] at found

end FileTree

namespace Workspace

variable {t : FileTree} {path dir : Path} {loc place : Location} {name : Bytes} {text : Text}

/-- Whether a name in the directory of a path is that of another source with the given text, which
the system finds below the directory as it is spelled and lets be read. -/
structure IsSibling (t : FileTree) (path dir : Path) (loc : Location) (name : Bytes)
    (text : Text) : Prop where
  other : path.fileName? ≠ some name
  java : Path.nameExtension? name = some sourceExtension.utf8
  holds : ∃ bytes, t.HoldsFile loc name bytes ∧ FileTree.decode? bytes = some text
  found : ∃ place, t.locate .follow (dir.join name) = .ok place ∧ t.refusal? place .read = none

/-- The names and texts of the siblings of a path, for the location of its directory. -/
def siblingsAt (t : FileTree) (path dir : Path) (loc : Location) : List (Bytes × Text) :=
  (((t.entriesAt loc).filter fun e =>
    (dir.join e.1).hasExtension sourceExtension && path.fileName? ≠ some e.1).mergeSort
      fun a b => Bytes.le a.1 b.1).filterMap fun e =>
        (t.readText (dir.join e.1)).toOption.map (e.1, ·)

theorem siblings_eq (found : directory? path = some dir)
    (listed : t.list dir = .ok (t.entriesAt loc)) :
    siblings t path = .ok ((siblingsAt t path dir loc).map fun e => (dir.join e.1, e.2)) := by
  rw [siblings, found]
  simp only [listed, siblingsAt, List.map_filterMap, Option.map_map]
  rfl

theorem siblingsAt_sorted (wf : t.WellFormed) :
    (siblingsAt t path dir loc).Pairwise fun e f => Bytes.Before e.1 f.1 := by
  generalize chosen : (t.entriesAt loc).filter (fun e =>
    (dir.join e.1).hasExtension sourceExtension && path.fileName? ≠ some e.1) = entries
  have apart : entries.Pairwise fun e f => e.1 ≠ f.1 :=
    chosen ▸ (FileTree.entriesAt_distinct wf loc).filter _
  have sorted := List.pairwise_mergeSort
    (fun a b c : Bytes × Node => Bytes.le_trans (a := a.1) (b := b.1) (c := c.1))
    (fun a b => Bytes.le_total a.1 b.1) entries
  have apart' :=
    ((List.mergeSort_perm entries fun a b => Bytes.le a.1 b.1).pairwise_iff Ne.symm).2 apart
  rw [siblingsAt, chosen, List.pairwise_filterMap]
  refine (sorted.and apart').imp fun {e f} ordered g hg h hh => ?_
  obtain ⟨-, -, rfl⟩ := Option.map_eq_some_iff.1 hg
  obtain ⟨-, -, rfl⟩ := Option.map_eq_some_iff.1 hh
  exact Bytes.before_of_le ordered.1 ordered.2

theorem mem_siblingsAt (wf : t.WellFormed) (leads : t.locate .follow dir = .ok loc) :
    (name, text) ∈ siblingsAt t path dir loc ↔ IsSibling t path dir loc name text := by
  have spelled := (FileTree.locate_eq_walk leads).1
  have toOption {x : Except AccessError Text} : x.toOption = some text ↔ x = .ok text := by
    cases x <;> simp [Except.toOption]
  rw [siblingsAt, List.mem_filterMap]
  constructor
  · rintro ⟨⟨name', node⟩, listed, given⟩
    obtain ⟨text', read, same⟩ := Option.map_eq_some_iff.1 given
    obtain ⟨rfl, rfl⟩ := Prod.mk.inj same
    obtain ⟨entry, kept⟩ := List.mem_filter.1 (List.mem_mergeSort.1 listed)
    rw [hasExtension_entry wf entry spelled, Bool.and_eq_true, decide_eq_true_iff,
      decide_eq_true_iff] at kept
    obtain ⟨place, found, allowed, bytes, file, decoded⟩ :=
      FileTree.readText_eq_ok_iff.1 (toOption.1 read)
    have held :=
      FileTree.holdsFile_of_locate wf leads (FileTree.node?_of_mem_entriesAt wf entry) found file
    exact ⟨kept.2, kept.1, ⟨bytes, held, decoded⟩, place, found, allowed⟩
  · rintro ⟨other, java, ⟨bytes, held, decoded⟩, place, found, allowed⟩
    have there : ∃ node, t.node? (loc ++ [name]) = some node := by
      cases held with
      | regular file => exact ⟨_, file⟩
      | linked link => exact ⟨_, link⟩
    obtain ⟨node, there⟩ := there
    have entry : (name, node) ∈ t.entriesAt loc :=
      FileTree.mem_entriesAt.2 (FileTree.mem_nodes_of_node? (by simp) there)
    refine ⟨(name, node), List.mem_mergeSort.2 (List.mem_filter.2 ⟨entry, ?_⟩), ?_⟩
    · rw [hasExtension_entry wf entry spelled, Bool.and_eq_true, decide_eq_true_iff,
        decide_eq_true_iff]
      exact ⟨java, other⟩
    · have file := held.node?_eq wf leads found
      rw [FileTree.readText_eq_ok_iff.2 ⟨place, found, allowed, bytes, file, decoded⟩]
      rfl

/-- A sibling that is the file itself is found through a link. -/
theorem IsSibling.linked (sibling : IsSibling t path dir loc name text) (wf : t.WellFormed)
    (found : directory? path = some dir) (leads : t.locate .follow dir = .ok loc)
    (own : t.locate .follow path = .ok place)
    (same : t.locate .follow (dir.join name) = .ok place) :
    ∃ n target, (n = name ∨ path.fileName? = some n) ∧
      t.node? (loc ++ [n]) = some (.link target) := by
  obtain ⟨bytes, held, -⟩ := sibling.holds
  cases held with
  | linked link => exact ⟨name, _, .inl rfl, link⟩
  | regular file =>
    obtain rfl := FileTree.eq_of_locate_join wf leads file (by simp) same
    obtain ⟨n, ends, down⟩ := FileTree.exists_endsIn_of_file wf own file
    have named : path.fileName? = some n := by rw [ends.fileName?_eq, if_neg down]
    have spells : Spells t loc n path :=
      ⟨ends, wf.node?_above (by simp) file, dir, found, FileTree.trace_of_locate leads⟩
    obtain ⟨left, looks⟩ := spells.exists_lookUp
    have goes := looks.symm.trans (FileTree.trace_of_locate own)
    obtain ⟨node, there⟩ := FileTree.exists_node?_of_lookUp ends.visible down goes
    cases node with
    | link target => exact ⟨n, target, .inr named, there⟩
    | file | directory =>
      -- Without a link the path leads to the entry under its own name.
      have only := FileTree.eq_of_lookUp spells.directory
        (wf.isName_of_node? (by simp) there n (by simp)) there (by simp) goes
      obtain rfl : name = n := by simpa using only
      exact absurd named sibling.other

theorem coupling_eq {t' : FileTree} (text : t'.readText path = t.readText path)
    (others : siblings t' path = siblings t path) :
    afferentCoupling t' path = afferentCoupling t path ∧
      instability t' path = instability t path := by
  have among {α : Type} (metric : Text → List Text → α) :
      measureAmong metric t' path = measureAmong metric t path := by
    rw [measureAmong, measureAmong, read, read, text, others]
  exact ⟨among _, by rw [instability, instability, among]⟩

/-- The siblings of a path whose directory can be listed are the other sources in it, each once and
in the order of their names. The file itself is one of them only through a link: that of the sibling
or that under the name of the path. What is no sibling has no part in the coupling of the file: it
stays the same in any tree where the file has the same text and the same siblings. -/
theorem siblings_are_exact (wf : t.WellFormed) (found : directory? path = some dir)
    (leads : t.locate .follow dir = .ok loc) (listed : t.list dir = .ok (t.entriesAt loc)) :
    ∃ entries : List (Bytes × Text),
      siblings t path = .ok (entries.map fun e => (dir.join e.1, e.2)) ∧
      entries.Pairwise (fun e f => Bytes.Before e.1 f.1) ∧
      (∀ name text, (name, text) ∈ entries ↔ IsSibling t path dir loc name text) ∧
      (∀ name text place, (name, text) ∈ entries → t.locate .follow path = .ok place →
        t.locate .follow (dir.join name) = .ok place →
        ∃ n target, (n = name ∨ path.fileName? = some n) ∧
          t.node? (loc ++ [n]) = some (.link target)) ∧
      ∀ t' loc', t'.WellFormed → t'.locate .follow dir = .ok loc' →
        t'.list dir = .ok (t'.entriesAt loc') → t'.readText path = t.readText path →
        (∀ name text, IsSibling t' path dir loc' name text ↔ IsSibling t path dir loc name text) →
          siblings t' path = siblings t path ∧ afferentCoupling t' path = afferentCoupling t path ∧
            instability t' path = instability t path := by
  refine ⟨siblingsAt t path dir loc, siblings_eq found listed, siblingsAt_sorted wf,
    fun name text => mem_siblingsAt wf leads, fun name text place there own same =>
      ((mem_siblingsAt wf leads).1 there).linked wf found leads own same, ?_⟩
  intro t' loc' wf' leads' listed' text same
  have entries : siblingsAt t' path dir loc' = siblingsAt t path dir loc := by
    refine Bytes.eq_of_before (siblingsAt_sorted wf') (siblingsAt_sorted wf) fun e => ?_
    obtain ⟨name, text⟩ := e
    rw [mem_siblingsAt wf' leads', same, mem_siblingsAt wf leads]
  have others : siblings t' path = siblings t path := by
    rw [siblings_eq found listed, siblings_eq found listed', entries]
  exact ⟨others, coupling_eq text others⟩

/-- A directory with three sources, one of which must not be read, a link to another one and a
directory that is named like a source. -/
def linkTree : FileTree where
  nodes := [([utf8 "src"], .directory), ([utf8 "src", utf8 "A.java"], .file "class A {}".toUTF8),
    ([utf8 "src", utf8 "B.java"], .file "class B {}".toUTF8),
    ([utf8 "src", utf8 "C.java"], .file "class C {}".toUTF8),
    ([utf8 "src", utf8 "D.java"], .directory), ([utf8 "src", utf8 "L.java"], .link (utf8 "B.java"))]
  cwd := []
  refusals := [⟨[utf8 "src", utf8 "C.java"], .read, "Permission denied (os error 13)"⟩]

theorem linkTree_wellFormed : linkTree.WellFormed where
  distinct := by decide
  named := by decide
  inDirectory := by
    intro e there
    have above : e.1.dropLast = [] ∨ e.1.dropLast = [utf8 "src"] := by
      revert e
      decide
    rcases above with above | above <;> rw [above] <;> rfl
  cwd_directory := rfl

/-- A link to a sibling is a sibling of its own; the file itself, a directory and a file that must
not be read are none. -/
theorem linked_sibling_is_listed :
    ∃ entries : List (Bytes × Text),
      siblings linkTree (.ofString "src/A.java") =
        .ok (entries.map fun e => ((Path.ofString "src").join e.1, e.2)) ∧
      (utf8 "B.java", "class B {}".toList) ∈ entries ∧
      (utf8 "L.java", "class B {}".toList) ∈ entries ∧
      ∀ text, (utf8 "A.java", text) ∉ entries ∧ (utf8 "C.java", text) ∉ entries ∧
        (utf8 "D.java", text) ∉ entries := by
  have top : linkTree.Searchable [] := ⟨rfl, rfl⟩
  have src : linkTree.Searchable [utf8 "src"] := ⟨rfl, rfl⟩
  have file : linkTree.node? ([utf8 "src"] ++ [utf8 "B.java"]) = some (.file "class B {}".toUTF8) :=
    rfl
  have shut : linkTree.node? ([utf8 "src"] ++ [utf8 "C.java"]) = some (.file "class C {}".toUTF8) :=
    rfl
  have link : linkTree.node? ([utf8 "src"] ++ [utf8 "L.java"]) = some (.link (utf8 "B.java")) := rfl
  have folder : linkTree.node? ([utf8 "src"] ++ [utf8 "D.java"]) = some .directory := rfl
  have decoded : FileTree.decode? "class B {}".toUTF8 = some "class B {}".toList := by decide
  have leads : linkTree.locate .follow (.ofString "src") = .ok [utf8 "src"] := by
    rw [FileTree.locate_of_fits (by decide)]
    exact FileTree.walk_last top (by decide) src.directory (by simp)
  have listed : linkTree.list (.ofString "src") = .ok (linkTree.entriesAt [utf8 "src"]) :=
    FileTree.list_eq_ok_iff.2 ⟨_, leads, rfl, rfl, rfl⟩
  have follows : linkTree.walk .follow 40 [utf8 "src"] [utf8 "L.java"] =
      .ok [utf8 "src", utf8 "B.java"] :=
    (FileTree.walk_link 39 src (by decide) link []).2.trans
      (FileTree.walk_last src (by decide) file (by simp))
  have direct : linkTree.locate .follow ((Path.ofString "src").join (utf8 "B.java")) =
      .ok [utf8 "src", utf8 "B.java"] := by
    rw [FileTree.locate_of_fits (by decide)]
    exact (FileTree.walk_enter top (by decide) src.directory).trans
      (FileTree.walk_last src (by decide) file (by simp))
  have around : linkTree.locate .follow ((Path.ofString "src").join (utf8 "L.java")) =
      .ok [utf8 "src", utf8 "B.java"] := by
    rw [FileTree.locate_of_fits (by decide)]
    exact (FileTree.walk_enter top (by decide) src.directory).trans follows
  have found : directory? (.ofString "src/A.java") = some (.ofString "src") := by decide
  obtain ⟨entries, same, -, mem, -⟩ := siblings_are_exact linkTree_wellFormed found leads listed
  refine ⟨entries, same,
    (mem _ _).2 ⟨by decide, by decide, ⟨_, .regular file, decoded⟩, _, direct, rfl⟩,
    (mem _ _).2 ⟨by decide, by decide, ⟨_, .linked link follows file, decoded⟩, _, around, rfl⟩,
    fun text => ⟨?_, ?_, ?_⟩⟩
  · exact fun there => ((mem _ _).1 there).other (by decide)
  · intro there
    obtain ⟨place, reached, allowed⟩ := ((mem _ _).1 there).found
    obtain rfl := FileTree.eq_of_locate_join linkTree_wellFormed leads shut (by simp) reached
    have refused : linkTree.refusal? ([utf8 "src"] ++ [utf8 "C.java"]) .read =
        some "Permission denied (os error 13)" := by decide
    rw [refused] at allowed
    contradiction
  · intro there
    obtain ⟨_, file | ⟨link, -, -⟩, -⟩ := ((mem _ _).1 there).holds
    · exact absurd (folder.symm.trans file) (by simp)
    · exact absurd (folder.symm.trans link) (by simp)

/-! ## Long ways to a directory -/

/-- The name of a source that is about as long as a name may be. -/
def longName : Bytes := List.replicate 245 0x42 ++ utf8 ".java"

/-- A directory that holds two sources and another directory. -/
def roundTree : FileTree where
  nodes := [([utf8 "A.java"], .file "class A {}".toUTF8), ([longName], .file "class B {}".toUTF8),
    ([utf8 "d"], .directory)]
  cwd := []

theorem roundTree_wellFormed : roundTree.WellFormed :=
  FileTree.wellFormed_of_flat (by decide +kernel) (by decide +kernel) (by decide +kernel) rfl

/-- The way into the other directory and back, so many times. -/
def rounds (k : Nat) : List Bytes := (List.replicate k [utf8 "d", [Path.dot, Path.dot]]).flatten

/-- The directory, spelled with so many rounds and one more. -/
def roundabout (k : Nat) : Path := ⟨Text.join [Path.sep] (rounds (k + 1))⟩

theorem mem_rounds {k : Nat} {s : Bytes} (there : s ∈ rounds k) :
    s = utf8 "d" ∨ s = [Path.dot, Path.dot] := by
  obtain ⟨round, listed, step⟩ := List.mem_flatten.1 there
  rw [List.eq_of_mem_replicate listed] at step
  simpa using step

theorem segments_roundabout (k : Nat) : Path.segments (roundabout k).bytes = rounds (k + 1) := by
  refine Path.segments_join_of_noSlash (by simp [rounds, List.replicate_succ]) fun s there => ?_
  rcases mem_rounds there with rfl | rfl <;> decide

theorem segments_roundabout_append (k : Nat) {name : Bytes} (noSlash : Path.sep ∉ name) :
    Path.segments ((roundabout k).bytes ++ Path.sep :: name) = rounds (k + 1) ++ [name] := by
  rw [Path.segments_append_slash, segments_roundabout, Path.segments_of_noSlash noSlash]

/-- All rounds end where they start. -/
theorem walk_rounds (k links : Nat) : roundTree.walk .follow links [] (rounds k) = .ok [] := by
  induction k with
  | zero => exact FileTree.walk_nil ..
  | succ k ih =>
    calc roundTree.walk .follow links [] (utf8 "d" :: [Path.dot, Path.dot] :: rounds k)
      _ = roundTree.walk .follow links [utf8 "d"] ([Path.dot, Path.dot] :: rounds k) :=
        FileTree.walk_enter ⟨rfl, rfl⟩ (by decide) rfl
      _ = roundTree.walk .follow links [] (rounds k) := FileTree.walk_up ⟨rfl, rfl⟩
      _ = .ok [] := ih

theorem exists_text_roundabout (k : Nat) :
    ∃ rest, (roundabout k).bytes = 0x64 :: Path.sep :: rest :=
  ⟨_, Text.join_cons_cons ..⟩

theorem length_roundabout (k : Nat) : (roundabout k).bytes.length = 5 * k + 4 := by
  induction k with
  | zero => decide
  | succ k ih =>
    have first : (roundabout (k + 1)).bytes = utf8 "d/../" ++ (roundabout k).bytes :=
      (Text.join_cons_cons ..).trans (congrArg _ (congrArg _ (Text.join_cons_cons ..)))
    have five : (utf8 "d/../").length = 5 := by decide
    rw [first, List.length_append, ih]
    omega

theorem trace_roundabout (k : Nat) : roundTree.trace .follow (roundabout k) = .ok [] := by
  have start : roundTree.startOf (roundabout k) = [] := ite_self _
  have noNul : FileTree.nul ∉ (roundabout k).bytes := by
    rw [← Path.exists_mem_segments (by decide), segments_roundabout]
    rintro ⟨s, there, char⟩
    rcases mem_rounds there with rfl | rfl <;> revert char <;> decide
  obtain ⟨rest, first⟩ := exists_text_roundabout k
  rw [FileTree.trace, if_neg (by simpa using noNul), if_neg (by simp [first]), start,
    segments_roundabout, walk_rounds]

theorem directory?_roundabout (k : Nat) {name : Bytes} (noSlash : Path.sep ∉ name)
    (visible : Path.isIdle name = false) :
    directory? ⟨(roundabout k).bytes ++ Path.sep :: name⟩ = some (roundabout k) := by
  obtain ⟨rest, first⟩ := exists_text_roundabout k
  have last : rounds (k + 1) = (rounds k ++ [utf8 "d"]) ++ [[Path.dot, Path.dot]] := by
    simp [rounds, List.replicate_succ']
  have whole : Path.dropIdleEnd (rounds (k + 1)) = rounds (k + 1) := by
    rw [last, Path.dropIdleEnd_concat (by decide)]
  have other : (0x64 : UInt8) ≠ Path.sep ∧ (0x64 : UInt8) ≠ Path.dot := by decide
  have parent := Path.parent?_other (by simp [first, other.1]) (by simp [first, other.2])
    (segments_roundabout_append k noSlash) visible
  rw [whole] at parent
  rw [directory?, parent]
  exact congrArg some (if_neg (show ¬ (roundabout k).bytes.isEmpty = true by simp [first]))

theorem endsIn_roundabout (k : Nat) {name : Bytes} (noSlash : Path.sep ∉ name)
    (visible : Path.isIdle name = false) :
    Path.EndsIn ⟨(roundabout k).bytes ++ Path.sep :: name⟩ name :=
  ⟨(congrArg _ (segments_roundabout_append k noSlash)).trans List.getLast?_concat, visible⟩

/-- The path of a source that goes round so many times. -/
def roundPath (k : Nat) : Path := ⟨(roundabout k).bytes ++ Path.sep :: utf8 "A.java"⟩

section RoundTrips

variable {k : Nat} (short : 5 * k + 4 ≤ FileTree.maxPathBytes)
include short

theorem locate_roundabout : roundTree.locate .follow (roundabout k) = .ok [] :=
  FileTree.locate_of_short (trace_roundabout k) (length_roundabout k ▸ short)

theorem list_roundabout : roundTree.list (roundabout k) = .ok (roundTree.entriesAt []) :=
  FileTree.list_eq_ok_iff.2 ⟨_, locate_roundabout short, rfl, rfl, rfl⟩

/-- A source whose path is too long below the directory as it is spelled is left out, though the
directory can be listed that way. -/
theorem long_sibling_is_left_out (long : FileTree.maxPathBytes < 5 * k + 4 + 250)
    {entries : List (Path × Text)} (given : siblings roundTree (roundPath k) = .ok entries) :
    ∀ e ∈ entries, e.1 ≠ (roundabout k).join longName := by
  have found : directory? (roundPath k) = some (roundabout k) :=
    directory?_roundabout k (by decide) (by decide)
  have beyond : FileTree.maxPathBytes < ((roundabout k).join longName).bytes.length := by
    have least : _ ≤ ((roundabout k).join longName).bytes.length :=
      Path.length_joinAll (roundabout k) [longName]
    have name : [longName].flatten.length = 250 := by decide +kernel
    rw [length_roundabout, name] at least
    omega
  rw [siblings_eq found (list_roundabout short)] at given
  obtain rfl := Except.ok.inj given
  intro e there same
  obtain ⟨⟨name, text⟩, listed, rfl⟩ := List.mem_map.1 there
  obtain ⟨place, reached, -⟩ :=
    ((mem_siblingsAt roundTree_wellFormed (locate_roundabout short)).1 listed).found
  have same : (roundabout k).join name = (roundabout k).join longName := same
  exact Nat.not_le.2 beyond (FileTree.length_le_of_locate (same ▸ reached))

end RoundTrips

/-! ## Links to the file itself -/

/-- A source with a link to it beside it. -/
def selfTree : FileTree where
  nodes :=
    [([utf8 "A.java"], .file "class A { A next; }".toUTF8),
      ([utf8 "L.java"], .link (utf8 "A.java"))]
  cwd := []

theorem selfTree_wellFormed : selfTree.WellFormed :=
  FileTree.wellFormed_of_flat (by decide) (by decide) (by decide) rfl

theorem selfTree_searchable : selfTree.Searchable [] := ⟨rfl, rfl⟩

theorem list_selfTree : selfTree.locate .follow (.ofString ".") = .ok [] ∧
    selfTree.list (.ofString ".") = .ok (selfTree.entriesAt []) := by
  have leads : selfTree.locate .follow (.ofString ".") = .ok [] := by
    rw [FileTree.locate_of_fits (by decide)]
    exact FileTree.walk_idles selfTree_searchable (by decide)
  exact ⟨leads, FileTree.list_eq_ok_iff.2 ⟨_, leads, rfl, rfl, rfl⟩⟩

theorem locate_selfTree : selfTree.locate .follow (.ofString "A.java") = .ok [utf8 "A.java"] ∧
    selfTree.locate .follow ((Path.ofString ".").join (utf8 "L.java")) = .ok [utf8 "A.java"] := by
  have link : selfTree.node? ([] ++ [utf8 "L.java"]) = some (.link (utf8 "A.java")) := rfl
  constructor
  · rw [FileTree.locate_of_fits (by decide)]
    exact FileTree.walk_last selfTree_searchable (by decide) rfl (by simp)
  · rw [FileTree.locate_of_fits (by decide)]
    exact (FileTree.walk_idle selfTree_searchable rfl).trans
      ((FileTree.walk_link 39 selfTree_searchable (by decide) link []).2.trans
        (FileTree.walk_last selfTree_searchable (by decide) rfl (by simp)))

/-- A file that mentions its own type and has a link to it beside it is counted as its own
dependent. -/
theorem linked_file_is_its_own_sibling :
    siblings selfTree (.ofString "A.java") =
        .ok [((Path.ofString ".").join (utf8 "L.java"), "class A { A next; }".toList)] ∧
      afferentCoupling selfTree (.ofString "A.java") = .ok 1 := by
  have reads {p : Path} (found : selfTree.locate .follow p = .ok [utf8 "A.java"]) :
      selfTree.readText p = .ok "class A { A next; }".toList :=
    FileTree.readText_eq_ok_iff.2 ⟨_, found, rfl, _, rfl, by decide⟩
  have dir : directory? (.ofString "A.java") = some (.ofString ".") := by decide
  have others : ((selfTree.entriesAt []).filter fun e =>
      ((Path.ofString ".").join e.1).hasExtension sourceExtension &&
        (Path.ofString "A.java").fileName? ≠ some e.1) =
          [(utf8 "L.java", .link (utf8 "A.java"))] := rfl
  have only : siblings selfTree (.ofString "A.java") =
      .ok [((Path.ofString ".").join (utf8 "L.java"), "class A { A next; }".toList)] := by
    simp only [siblings, dir, list_selfTree.2]
    rw [others, List.mergeSort_singleton, List.filterMap_cons, reads locate_selfTree.2]
    rfl
  have counted :
      Afferent.coupling "class A { A next; }".toList ["class A { A next; }".toList] = 1 := by
    decide +kernel
  refine ⟨only, ?_⟩
  rw [afferentCoupling, measureAmong, read, reads locate_selfTree.1, only]
  exact congrArg Except.ok counted

/-- Not every readable source beside a file is a sibling of it, and the file may be one itself. -/
theorem siblings_miss_and_repeat :
    (∃ (t : FileTree) (path dir : Path) (loc : Location) (name : Bytes) (text : Text)
      (bytes : ByteArray), t.WellFormed ∧ path.bytes.getLast? ≠ some Path.sep ∧
        directory? path = some dir ∧ t.locate .follow dir = .ok loc ∧
        t.list dir = .ok (t.entriesAt loc) ∧ path.fileName? ≠ some name ∧
        Path.nameExtension? name = some sourceExtension.utf8 ∧
        t.node? (loc ++ [name]) = some (.file bytes) ∧ FileTree.decode? bytes = some text ∧
        ∀ entries, siblings t path = .ok entries → ∀ e ∈ entries, e.1 ≠ dir.join name) ∧
    ∃ (t : FileTree) (path dir : Path) (loc place : Location) (name : Bytes) (text : Text),
      t.WellFormed ∧ path.bytes.getLast? ≠ some Path.sep ∧ directory? path = some dir ∧
        t.locate .follow dir = .ok loc ∧ t.list dir = .ok (t.entriesAt loc) ∧
        t.locate .follow path = .ok place ∧ t.locate .follow (dir.join name) = .ok place ∧
        siblings t path = .ok [(dir.join name, text)] ∧ afferentCoupling t path = .ok 1 := by
  constructor
  · -- So many rounds that the path of the directory is short enough and that of the source is not.
    obtain ⟨k, short, long⟩ : ∃ k, 5 * k + 4 ≤ FileTree.maxPathBytes ∧
        FileTree.maxPathBytes < 5 * k + 4 + 250 := ⟨774, by decide⟩
    have file : roundTree.node? ([] ++ [longName]) = some (.file "class B {}".toUTF8) :=
      FileTree.node?_of_mem_nodes roundTree_wellFormed.distinct (by simp) (.tail _ (.head _))
    refine ⟨roundTree, roundPath k, roundabout k, [], longName, "class B {}".toList, _,
      roundTree_wellFormed, ?_, directory?_roundabout k (by decide) (by decide),
      locate_roundabout short, list_roundabout short, ?_, by decide +kernel, file, by decide,
      fun entries => long_sibling_is_left_out short long⟩
    · rw [roundPath, List.getLast?_append_of_ne_nil _ (by simp)]
      decide
    · rw [roundPath, (endsIn_roundabout k (by decide) (by decide)).fileName?_eq]
      decide +kernel
  · exact ⟨selfTree, .ofString "A.java", .ofString ".", _, _, _, _, selfTree_wellFormed,
      by decide, by decide, list_selfTree.1, list_selfTree.2, locate_selfTree.1, locate_selfTree.2,
      linked_file_is_its_own_sibling⟩

end Workspace

end CodeGauge
