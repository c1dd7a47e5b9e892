import CodeGauge.CommandLine.Run
import CodeGauge.Proofs.Bundle.Export
import CodeGauge.Proofs.Coordinator.Drain
import CodeGauge.Proofs.Workspace.Gather

/-!
# What a scan reports

A scan tells a coordinator of all sources, waits until it is idle and reports its cache. Nothing is
lost or doubled on the way: every source is gathered once (`Workspace.gather_places`), its path is
its key in the cache (`Path.absolute_pathOf`), and what is stored until the coordinator is idle are
these keys (`Session.saves_waitIdle_cache`). So a scan reports exactly the sources
(`scan_reports_sources`), except that it leaves out what lies in directories that it cannot open
(`run_deepTree`). In JSON a source goes by its path as it is shown, so sources that are shown alike
share a field (`run_twinTree`).
-/

namespace CodeGauge

namespace CommandLine

open FileTree (pathOf)
open Workspace (IsSource)

variable {w : World} {root : Path} {loc : Location} {places : List Location}

/-- The snapshot of the files at some locations. -/
def snapshotAt (w : World) (places : List Location) : Snapshot :=
  places.map fun place => (pathOf place, Workspace.bundle w.tree w.wall (pathOf place))

/-- Different locations are different files in the cache. -/
theorem keys_apart (w : World) (once : places.Nodup)
    (named : ∀ place ∈ places, ∀ n ∈ place, FileTree.isName n = true) :
    (places.map pathOf).Pairwise fun p q => (w.key p).same (w.key q) = false := by
  refine List.pairwise_map.2 (once.imp_of_mem fun {a b} ha hb apart => ?_)
  rw [World.key, World.key, Path.absolute_pathOf _ (named a ha),
    Path.absolute_pathOf _ (named b hb), Path.same, Path.components_pathOf (named a ha),
    Path.components_pathOf (named b hb)]
  refine decide_eq_false fun same => apart ?_
  exact List.map_injective_iff.2 (fun _ _ => Path.Component.name.inj) (List.cons.inj same).2

/-- Whether these are the sources of a workspace, each of them once. -/
structure Sources (w : World) (s : Settings) (loc : Location) (places : List Location) : Prop where
  once : places.Nodup
  mem_iff : ∀ place, place ∈ places ↔ IsSource w.tree s.extension s.excluded loc place

/-- The cache at the end of a scan. -/
theorem scanned_eq (wf : w.tree.WellFormed) {overrides : Overrides}
    (sources : Sources w (settings w overrides (pathOf loc)) loc places)
    (gathered : Workspace.gather w.tree (pathOf loc) (settings w overrides (pathOf loc)).extension
      (settings w overrides (pathOf loc)).excluded = places.map pathOf) :
    scanned w overrides (pathOf loc) = snapshotAt w places := by
  have named : ∀ place ∈ places, ∀ n ∈ place, FileTree.isName n = true :=
    fun place there => ((sources.mem_iff place).1 there).isName wf
  have matching : ∀ p ∈ places.map pathOf,
      p.hasExtension (settings w overrides (pathOf loc)).extension = true := by
    intro p there
    obtain ⟨place, listed, rfl⟩ := List.mem_map.1 there
    exact decide_eq_true ((sources.mem_iff place).1 listed).extension_eq
  have keys : (places.map pathOf).map w.key = places.map pathOf := by
    rw [List.map_map]
    exact List.map_congr_left fun place there => Path.absolute_pathOf _ (named place there)
  have cache := Session.saves_waitIdle_cache w _ matching (keys_apart w sources.once named)
  rw [keys, List.map_map, ← gathered] at cache
  exact cache

/-- What a scan writes about the files at some locations. -/
def reportOn (w : World) (places : List Location) (json verbose : Bool) : Outcome :=
  if json then .success (Snapshot.jsonText (snapshotAt w places) ++ ['\n'])
  else ⟨0, Snapshot.text (snapshotAt w places) verbose,
    digitsText places.length ++ " files analyzed\n".toList⟩

/-- A scan reports the sources, each of them once. -/
theorem exists_run_scan (wf : w.tree.WellFormed) (opens : w.tree.canonical root = .ok (pathOf loc))
    (directory : w.tree.node? loc = some .directory) (overrides : Overrides) :
    ∃ places, Sources w (settings w overrides (pathOf loc)) loc places ∧
      ∀ json verbose,
        run w ⟨overrides, .scan root json verbose⟩ = reportOn w places json verbose := by
  obtain ⟨places, once, mem_iff, gathered⟩ := Workspace.gather_places wf directory
    (settings w overrides (pathOf loc)).extension (settings w overrides (pathOf loc)).excluded
  have cache := scanned_eq wf ⟨once, mem_iff⟩ gathered
  have counted : (snapshotAt w places).length = places.length := List.length_map ..
  refine ⟨places, ⟨once, mem_iff⟩, fun json verbose => ?_⟩
  simp only [run, withRoot, opens, scan, cache, counted, reportOn]

/-- The fields for the files at some locations: one for each path as it is shown, with the bundle of
a file whose path is shown so. -/
structure FieldsOn (w : World) (places : List Location) (fields : List (String × Json)) : Prop where
  once : (fields.map (·.1)).Nodup
  each : ∀ place ∈ places, String.ofList (pathOf place).display ∈ fields.map (·.1)
  only : ∀ field ∈ fields, ∃ place ∈ places, field =
    (String.ofList (pathOf place).display, (Workspace.bundle w.tree w.wall (pathOf place)).toJson)

theorem fieldsOn (w : World) (places : List Location) :
    FieldsOn w places (Snapshot.jsonFields (snapshotAt w places)) := by
  have sorted : (Snapshot.jsonFields (snapshotAt w places)).Perm
      ((Snapshot.shown (snapshotAt w places)).map fun e => (String.ofList e.1, e.2.toJson)) :=
    (List.mergeSort_perm (Snapshot.shown (snapshotAt w places)) _).map _
  have names : ((Snapshot.jsonFields (snapshotAt w places)).map (·.1)).Perm
      (((Snapshot.shown (snapshotAt w places)).map (·.1)).map String.ofList) := by
    simpa [Function.comp_def] using sorted.map (·.1)
  refine ⟨?_, fun place there => ?_, fun field there => ?_⟩
  · exact names.nodup_iff.2 ((Snapshot.shown_nodup _).map fun _ _ => String.ofList_injective)
  · exact names.mem_iff.2 (List.mem_map_of_mem (Snapshot.display_mem_shown
      (List.mem_map_of_mem there : (pathOf place, _) ∈ snapshotAt w places)))
  · obtain ⟨named, shown, rfl⟩ := List.mem_map.1 (sorted.mem_iff.1 there)
    obtain ⟨e, listed, rfl⟩ := Snapshot.exists_of_mem_shown shown
    obtain ⟨place, member, rfl⟩ := List.mem_map.1 listed
    exact ⟨place, member, rfl⟩

/-- For every tree and every directory in it that can be opened as a workspace, and whatever times
are given, a scan reports every source below the directory once, with the bundle of the file, and
nothing else. In JSON these are the fields for the sources. -/
theorem scan_reports_sources (wf : w.tree.WellFormed)
    (opens : w.tree.canonical root = .ok (pathOf loc))
    (directory : w.tree.node? loc = some .directory) (overrides : Overrides) (json verbose : Bool) :
    ∃ places, Sources w (settings w overrides (pathOf loc)) loc places ∧
      run w ⟨overrides, .scan root json verbose⟩ = reportOn w places json verbose ∧
      ∃ fields, FieldsOn w places fields ∧
        Snapshot.jsonText (snapshotAt w places) = (Json.obj fields).pretty := by
  obtain ⟨places, sources, reports⟩ := exists_run_scan wf opens directory overrides
  exact ⟨places, sources, reports json verbose, _, fieldsOn w places, rfl⟩

/-! ## Workspaces without a configuration -/

/-- Without a directory for it there is no configuration. -/
theorem load_eq_default {t : FileTree} (wf : t.WellFormed)
    (directory : t.node? loc = some .directory)
    (gone : t.node? (loc ++ [utf8 ".archmetrics"]) = none) :
    Settings.load t (pathOf loc) = .default := by
  have named : ∀ n ∈ loc ++ [utf8 ".archmetrics", utf8 "config.toml"],
      FileTree.isName n = true := by
    have both : ∀ n ∈ [utf8 ".archmetrics", utf8 "config.toml"], FileTree.isName n = true := by
      decide
    intro n there
    rcases List.mem_append.1 there with there | there
    · exact wf.isName_of_located directory n there
    · exact both n there
  have config : Settings.configPath (pathOf loc) =
      pathOf (loc ++ [utf8 ".archmetrics", utf8 "config.toml"]) := Path.joinAll_pathOf named
  have lost : ∃ cause, t.trace .follow (Settings.configPath (pathOf loc)) = .error cause := by
    have below : t.node? ([] ++ loc) = some .directory := directory
    rw [config, FileTree.trace_eq_walk named (by simp)]
    rcases FileTree.walk_down wf below .follow FileTree.maxLinks with ⟨wording, refused⟩ | goes
    · exact ⟨_, refused _⟩
    · cases allowed : t.refusal? loc .search with
      | some wording =>
        exact ⟨_, (goes _).trans (FileTree.walk_refused directory allowed (by decide))⟩
      | none =>
        exact ⟨_, (goes _).trans (FileTree.walk_missing ⟨directory, allowed⟩ (by decide) gone)⟩
  obtain ⟨cause, lost⟩ := lost
  have unread {text : Text} (reads : t.readText (Settings.configPath (pathOf loc)) = .ok text) :
      False := by
    obtain ⟨place, found, -⟩ := FileTree.readText_eq_ok_iff.1 reads
    rw [FileTree.trace_of_locate found] at lost
    contradiction
  rw [Settings.load]
  split
  · rename_i reads
    exact absurd reads unread
  · rfl

theorem settings_of_no_config (wf : w.tree.WellFormed)
    (directory : w.tree.node? loc = some .directory)
    (gone : w.tree.node? (loc ++ [utf8 ".archmetrics"]) = none) (overrides : Overrides) :
    (settings w overrides (pathOf loc)).extension = "java".toList ∧
      (settings w overrides (pathOf loc)).excluded = Settings.defaultExcluded := by
  rw [settings, load_eq_default wf directory gone]
  exact ⟨rfl, rfl⟩

theorem locate_build :
    Workspace.buildTree.locate .follow (pathOf [utf8 "build"]) = .ok [utf8 "build"] ∧
      Workspace.buildTree.locate .follow (pathOf [utf8 "build", utf8 "src"]) =
        .ok [utf8 "build", utf8 "src"] := by
  have outer : Workspace.buildTree.node? [utf8 "build"] = some .directory :=
    Workspace.buildTree_directory 1 (by decide)
  have inner : Workspace.buildTree.node? [utf8 "build", utf8 "src"] = some .directory :=
    Workspace.buildTree_directory 2 (by decide)
  constructor
  · refine FileTree.locate_of_short ?_ (by decide)
    rw [FileTree.trace_eq_walk (by decide) (by simp)]
    exact FileTree.walk_last ⟨rfl, rfl⟩ (by decide) outer (by simp)
  · refine FileTree.locate_of_short ?_ (by decide)
    rw [FileTree.trace_eq_walk (by decide) (by simp)]
    exact (FileTree.walk_enter ⟨rfl, rfl⟩ (by decide) outer).trans
      (FileTree.walk_last ⟨outer, rfl⟩ (by decide) inner (by simp))

theorem isSource_build : IsSource Workspace.buildTree "java".toList Settings.defaultExcluded
    [utf8 "build"] [utf8 "build", utf8 "src", utf8 "A.java"] where
  file := ⟨_, FileTree.node?_nested ..⟩
  extension_eq := by decide
  allowed := ⟨[utf8 "src", utf8 "A.java"], by decide, rfl, by decide⟩
  opened := by
    rintro dir ⟨rest, rfl⟩ start
    have start : rest <+: [utf8 "src"] := (List.prefix_append_right_inj [utf8 "build"]).1 start
    rcases List.prefix_cons_iff.1 start with rfl | ⟨none, rfl, later⟩
    · exact FileTree.isOk_list_iff.2
        ⟨_, locate_build.1, Workspace.buildTree_directory 1 (by decide), rfl⟩
    · rw [List.prefix_nil.1 later]
      exact FileTree.isOk_list_iff.2
        ⟨_, locate_build.2, Workspace.buildTree_directory 2 (by decide), rfl⟩

/-- A workspace may lie in a directory with an excluded name. -/
theorem build_source_is_reported :
    run ⟨Workspace.buildTree, 7, .epoch⟩ ⟨⟨some 0, none⟩, .scan (.ofString "build") false true⟩ =
      reportOn ⟨Workspace.buildTree, 7, .epoch⟩ [[utf8 "build", utf8 "src", utf8 "A.java"]]
        false true := by
  have wf : Workspace.buildTree.WellFormed := FileTree.nested_wellFormed (by decide) .empty
  have directory : Workspace.buildTree.node? [utf8 "build"] = some .directory :=
    Workspace.buildTree_directory 1 (by decide)
  have opens : Workspace.buildTree.canonical (.ofString "build") = .ok (pathOf [utf8 "build"]) := by
    have leads : Workspace.buildTree.walk .follow FileTree.maxLinks [] [utf8 "build"] =
        .ok [utf8 "build"] := FileTree.walk_last ⟨rfl, rfl⟩ (by decide) directory (by simp)
    show (Workspace.buildTree.walk .follow FileTree.maxLinks [] [utf8 "build"]).bind _ = _
    rw [leads]
    rfl
  obtain ⟨places, sources, report, -⟩ := scan_reports_sources
    (w := ⟨Workspace.buildTree, 7, .epoch⟩) wf opens directory ⟨some 0, none⟩ false true
  have only : places.Perm [[utf8 "build", utf8 "src", utf8 "A.java"]] := by
    refine (List.perm_ext_iff_of_nodup sources.once (List.nodup_singleton _)).2 fun place => ?_
    obtain ⟨extension, excluded⟩ := settings_of_no_config (w := ⟨Workspace.buildTree, 7, .epoch⟩) wf
      directory rfl ⟨some 0, none⟩
    rw [sources.mem_iff, extension, excluded, List.mem_singleton]
    constructor
    · intro source
      obtain ⟨bytes, file⟩ := source.file
      exact FileTree.eq_of_node?_nested file
    · rintro rfl
      exact isSource_build
  rw [report, List.perm_singleton.1 only]

/-! ## Sources that are missing or merged -/

theorem reportOn_nil (w : World) :
    reportOn w [] false false = ⟨0, [], "0 files analyzed\n".toList⟩ := by
  have empty : Snapshot.text (snapshotAt w []) false = [] := by
    simp [Snapshot.text, Snapshot.sorted, snapshotAt]
  rw [reportOn, if_neg (by decide), empty]
  rfl

/-- A world at whose root nothing is asked for but what a tree holds. -/
abbrev worldOf (tree : FileTree) : World := ⟨tree, 0, .epoch⟩

theorem settings_deepTree :
    (settings (worldOf Workspace.deepTree) ⟨none, none⟩ (pathOf [])).extension = "java".toList ∧
      (settings (worldOf Workspace.deepTree) ⟨none, none⟩ (pathOf [])).excluded =
        Settings.defaultExcluded :=
  settings_of_no_config (w := worldOf Workspace.deepTree) Workspace.deepTree_wellFormed rfl
    (Option.isNone_iff_eq_none.1 (by decide +kernel)) ⟨none, none⟩

/-- A source whose directory cannot be opened is not reported. -/
theorem run_deepTree :
    run (worldOf Workspace.deepTree) ⟨⟨none, none⟩, .scan (.ofString "/") false false⟩ =
      ⟨0, [], "0 files analyzed\n".toList⟩ := by
  let w := worldOf Workspace.deepTree
  have directory : w.tree.node? [] = some .directory := rfl
  have opens : w.tree.canonical (.ofString "/") = .ok (pathOf []) := rfl
  obtain ⟨places, sources, reports⟩ :=
    exists_run_scan Workspace.deepTree_wellFormed opens directory ⟨none, none⟩
  have none_left : places = [] := by
    apply List.eq_nil_iff_forall_not_mem.2
    intro place there
    have source := (sources.mem_iff place).1 there
    obtain ⟨bytes, only⟩ := source.file
    have opened := source.opened place.dropLast List.nil_prefix List.prefix_rfl
    have deep : (pathOf []).joinAll Workspace.deepNames = pathOf Workspace.deepNames :=
      Path.joinAll_pathOf fun n there => Workspace.isName_deepNames n (List.mem_append_left _ there)
    rw [FileTree.eq_of_node?_nested only, List.dropLast_concat, ← deep] at opened
    exact absurd opened (Bool.eq_false_iff.1 (Workspace.list_deepNames _))
  subst none_left
  exact (reports false false).trans (reportOn_nil w)

/-- The name of a source with a first byte that no text starts with. -/
def twin (first : UInt8) : Bytes := first :: utf8 ".java"

/-- Two sources whose names are shown alike. -/
def twinTree : FileTree where
  nodes := [([twin 0xfe], .file .empty), ([twin 0xff], .file .empty)]
  cwd := []

theorem twinTree_wellFormed : twinTree.WellFormed :=
  FileTree.wellFormed_of_flat (by decide) (by decide) (by decide) rfl

theorem isSource_twin {first : UInt8} (twins : first = 0xfe ∨ first = 0xff) :
    IsSource twinTree (settings (worldOf twinTree) ⟨none, none⟩ (pathOf [])).extension
      (settings (worldOf twinTree) ⟨none, none⟩ (pathOf [])).excluded [] [twin first] := by
  have directory : (worldOf twinTree).tree.node? [] = some .directory := rfl
  obtain ⟨extension, excluded⟩ := settings_of_no_config (w := worldOf twinTree) twinTree_wellFormed
    directory rfl ⟨none, none⟩
  rw [extension, excluded]
  refine ⟨?_, ?_, ⟨[twin first], by simp, rfl, by simp⟩, fun dir _ start => ?_⟩
  · rcases twins with rfl | rfl <;> exact ⟨_, rfl⟩
  · rcases twins with rfl | rfl <;> decide
  · obtain rfl : dir = [] := List.prefix_nil.1 start
    exact FileTree.isOk_list_iff.2
      ⟨[], FileTree.locate_of_short (twinTree.trace_root .follow) (by decide), rfl, rfl⟩

theorem display_of_twin {place : Location} {bytes : ByteArray}
    (file : twinTree.node? place = some (.file bytes)) :
    (pathOf place).display = (pathOf [twin 0xfe]).display := by
  have below : place ≠ [] := by
    rintro rfl
    cases file
  have listed := List.mem_map_of_mem (f := Prod.fst) (FileTree.mem_nodes_of_node? below file)
  have either : place = [twin 0xfe] ∨ place = [twin 0xff] := by simpa [twinTree] using listed
  rcases either with rfl | rfl
  · rfl
  · decide

/-- Sources that are shown alike share a field. -/
theorem run_twinTree :
    ∃ field, run (worldOf twinTree) ⟨⟨none, none⟩, .scan (.ofString "/") true false⟩ =
      .success ((Json.obj [field]).pretty ++ ['\n']) := by
  let w := worldOf twinTree
  have directory : w.tree.node? [] = some .directory := rfl
  have opens : w.tree.canonical (.ofString "/") = .ok (pathOf []) := rfl
  obtain ⟨places, sources, reports⟩ :=
    exists_run_scan twinTree_wellFormed opens directory ⟨none, none⟩
  obtain ⟨distinct, each, only⟩ := fieldsOn w places
  generalize same : Snapshot.jsonFields (snapshotAt w places) = fields at distinct each only
  have names : (fields.map (·.1)).Perm [String.ofList (pathOf [twin 0xfe]).display] := by
    refine (List.perm_ext_iff_of_nodup distinct (List.nodup_singleton _)).2 fun name => ?_
    rw [List.mem_singleton]
    constructor
    · intro there
      obtain ⟨field, listed, rfl⟩ := List.mem_map.1 there
      obtain ⟨place, source, rfl⟩ := only field listed
      obtain ⟨bytes, file⟩ := ((sources.mem_iff place).1 source).file
      exact congrArg String.ofList (display_of_twin file)
    · rintro rfl
      exact each _ ((sources.mem_iff _).2 (isSource_twin (.inl rfl)))
  obtain ⟨field, alone⟩ := List.length_eq_one_iff.1
    ((List.length_map ..).symm.trans names.length_eq : fields.length = 1)
  refine ⟨field, (reports true false).trans ?_⟩
  rw [← alone, ← same]
  rfl

/-- Not every source is reported, and not every one has a field of its own. -/
theorem scan_misses_and_merges :
    (∃ (w : World) (root : Path) (overrides : Overrides) (loc : Location) (names : List Bytes)
      (bytes : ByteArray),
      w.tree.WellFormed ∧ w.tree.canonical root = .ok (pathOf loc) ∧
        w.tree.node? loc = some .directory ∧
        w.tree.node? (loc ++ names) = some (.file bytes) ∧ names ≠ [] ∧
        (pathOf (loc ++ names)).extension? =
          some (settings w overrides (pathOf loc)).extension.utf8 ∧
        (∀ dir ∈ names.dropLast,
          Workspace.isExcluded (settings w overrides (pathOf loc)).excluded dir = false) ∧
        run w ⟨overrides, .scan root false false⟩ = ⟨0, [], "0 files analyzed\n".toList⟩) ∧
    ∃ (w : World) (root : Path) (overrides : Overrides) (loc place place' : Location),
      w.tree.WellFormed ∧ w.tree.canonical root = .ok (pathOf loc) ∧
        w.tree.node? loc = some .directory ∧ place ≠ place' ∧
        (∀ source ∈ [place, place'], IsSource w.tree (settings w overrides (pathOf loc)).extension
          (settings w overrides (pathOf loc)).excluded loc source) ∧
        ∃ field, run w ⟨overrides, .scan root true false⟩ =
          .success ((Json.obj [field]).pretty ++ ['\n']) := by
  constructor
  · refine ⟨worldOf Workspace.deepTree, .ofString "/", ⟨none, none⟩, [], _, _,
      Workspace.deepTree_wellFormed, rfl, rfl, Workspace.node?_deepTree,
      by simp, ?_, ?_, run_deepTree⟩
    · rw [settings_deepTree.1]
      decide +kernel
    · rw [settings_deepTree.2, List.dropLast_concat]
      intro dir there
      rw [List.eq_of_mem_replicate there]
      decide +kernel
  · refine ⟨worldOf twinTree, .ofString "/", ⟨none, none⟩, [], [twin 0xfe], [twin 0xff],
      twinTree_wellFormed, rfl, rfl, by decide, ?_, run_twinTree⟩
    rw [List.forall_mem_cons, List.forall_mem_singleton]
    exact ⟨isSource_twin (.inl rfl), isSource_twin (.inr rfl)⟩

end CommandLine

end CodeGauge
