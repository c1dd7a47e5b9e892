import CodeGauge.Proofs.CommandLine.Scan
import CodeGauge.Proofs.Workspace.Spellings

/-!
# Analyses and scans

An analysis measures one file under the path that it is given, spelled out from the root; a scan
measures all sources under the paths of their locations. Both come to the same readings of a file,
unless the system gives up on one of the paths only (`spellings_report_the_same`). A path that leads
over as many links as can be followed still leads to a directory, but no link in there can be
followed any more (`links_run_out`).
-/

namespace CodeGauge

namespace CommandLine

open FileTree (pathOf)
open Workspace (Spells LimitsAgree Within bundle)

theorem run_analyze (w : World) (overrides : Overrides) (file : Path) (json verbose : Bool) :
    run w ⟨overrides, .analyze file json verbose⟩ =
      .success (analysis file (bundle w.tree w.wall (w.key file)) json verbose) := rfl

/-- A source that a scan finds has the same readings under its own path and under the key of any of
its spellings. -/
theorem readings_of_source {w : World} (wf : w.tree.WellFormed) {extension : Text}
    {excluded : List Text} {loc dir : Location} {n : Bytes}
    (source : Workspace.IsSource w.tree extension excluded loc (dir ++ [n])) {q : Path}
    (spells : Spells w.tree dir n q)
    (limits : LimitsAgree w.tree dir (pathOf (dir ++ [n])) (w.key q)) (now later : Instant) :
    (bundle w.tree now (pathOf (dir ++ [n]))).readings =
      (bundle w.tree later (w.key q)).readings := by
  obtain ⟨bytes, file⟩ := source.file
  have found := source.locate_directory wf
  have reached := FileTree.trace_of_locate found
  have above := Path.directory?_pathOf (wf.isName_of_located file)
  have keeps : ∀ dir' ∈ Workspace.directory? (w.key q), ¬ w.tree.GivesUp dir' := by
    intro dir' there gives
    have gives := (limits.directory _ above dir' there).2 gives
    exact (FileTree.givesUp_iff_of_trace reached).1 gives (FileTree.length_le_of_locate found)
  exact (Workspace.spells_pathOf wf file reached).readings_eq (spells.absolute wf keeps) limits
    wf now later

/-- In every tree, the spellings of a file have the same readings, as far as the system gives up on
both or on neither. So an analysis of a source that a scan reports gives its readings, whatever
spelling it is given. -/
theorem spellings_report_the_same {w : World} (wf : w.tree.WellFormed) :
    (∀ loc n p q, Spells w.tree loc n p → Spells w.tree loc n q → LimitsAgree w.tree loc p q →
      ∀ now later, (bundle w.tree now p).readings = (bundle w.tree later q).readings ∧
        ((bundle w.tree now p).Numeric →
          (bundle w.tree now p).sameValues (bundle w.tree later q) = true)) ∧
    ∀ root loc overrides json verbose, w.tree.canonical root = .ok (pathOf loc) →
      w.tree.node? loc = some .directory →
      ∃ places, Sources w (settings w overrides (pathOf loc)) loc places ∧
        run w ⟨overrides, .scan root json verbose⟩ = reportOn w places json verbose ∧
        ∀ dir n, dir ++ [n] ∈ places → ∀ q, Spells w.tree dir n q →
          LimitsAgree w.tree dir (pathOf (dir ++ [n])) (w.key q) → ∀ overrides' json' verbose',
          ∃ b, run w ⟨overrides', .analyze q json' verbose'⟩ =
            .success (analysis q b json' verbose') ∧
              (bundle w.tree w.wall (pathOf (dir ++ [n]))).readings = b.readings := by
  refine ⟨fun loc n p q spells spells' limits now later => ?_, ?_⟩
  · have same := spells.readings_eq spells' limits wf now later
    exact ⟨same, Bundle.sameValues_of_readings_eq same⟩
  · intro root loc overrides json verbose opens directory
    obtain ⟨places, sources, reports⟩ := exists_run_scan wf opens directory overrides
    refine ⟨places, sources, reports json verbose, ?_⟩
    intro dir n listed q spells limits overrides' json' verbose'
    exact ⟨_, run_analyze w overrides' q json' verbose',
      readings_of_source wf ((sources.mem_iff _).1 listed) spells limits _ _⟩

/-- A link at the top that leads to a directory further down, with two sources in it. -/
def linkedTree : FileTree where
  nodes := [([utf8 "e"], .directory), ([utf8 "e", utf8 "d"], .directory),
    ([utf8 "e", utf8 "d", utf8 "A.java"], .file "class A {}".toUTF8),
    ([utf8 "e", utf8 "d", utf8 "B.java"], .file "class B extends A {}".toUTF8),
    ([utf8 "l"], .link (utf8 "e/d"))]
  cwd := []

theorem linkedTree_wellFormed : linkedTree.WellFormed where
  distinct := by decide
  named := by decide
  inDirectory := by
    intro e there
    simp only [linkedTree, List.mem_cons, List.not_mem_nil, or_false] at there
    rcases there with rfl | rfl | rfl | rfl | rfl <;> rfl
  cwd_directory := rfl

/-- Nothing is refused in this tree. -/
theorem linkedTree_searchable {loc : Location}
    (directory : linkedTree.node? loc = some .directory) :
    linkedTree.Searchable loc := ⟨directory, rfl⟩

theorem linkedTree_sources {name : Bytes}
    (there : (linkedTree.node? ([utf8 "e", utf8 "d"] ++ [name])).isSome) :
    name = utf8 "A.java" ∨ name = utf8 "B.java" := by
  obtain ⟨node, found⟩ := Option.isSome_iff_exists.1 there
  have listed := List.mem_map_of_mem (f := Prod.fst) (FileTree.mem_nodes_of_node? (by simp) found)
  simpa [linkedTree] using listed

theorem walk_link_linkedTree (rest : List Bytes) :
    linkedTree.walk .follow FileTree.maxLinks [] (utf8 "l" :: rest) =
      linkedTree.walk .follow 39 [utf8 "e", utf8 "d"] rest := by
  have link : linkedTree.node? ([] ++ [utf8 "l"]) = some (.link (utf8 "e/d")) := rfl
  have follows := (FileTree.walk_link 39 (linkedTree_searchable rfl) (by decide) link rest).2
  exact follows.trans ((FileTree.walk_enter (linkedTree_searchable rfl) (by decide) rfl).trans
    (FileTree.walk_enter (linkedTree_searchable rfl) (by decide) rfl))

/-- The way back up from where the link leads, however it is spelled. -/
theorem spells_linked {p : Path} (ends : p.EndsIn (utf8 "A.java"))
    (steps : Path.steps p.bytes =
      [utf8 "l", [Path.dot, Path.dot], utf8 "d"] ++ [utf8 "A.java"]) :
    Spells linkedTree [utf8 "e", utf8 "d"] (utf8 "A.java") p := by
  have start : linkedTree.startOf p = [] := ite_self _
  apply Workspace.spells_of_walk ends (linkedTree_searchable rfl) steps (by decide)
  rw [start, walk_link_linkedTree]
  exact (FileTree.walk_up (linkedTree_searchable rfl)).trans
    (FileTree.walk_last (linkedTree_searchable rfl) (by decide) rfl (by simp))

theorem within_linkedTree {p dir : Path}
    (spells : Spells linkedTree [utf8 "e", utf8 "d"] (utf8 "A.java") p)
    (found : Workspace.directory? p = some dir)
    (short : ∀ q ∈ [p, dir, dir.join (utf8 "A.java"), dir.join (utf8 "B.java")],
      q.bytes.length ≤ FileTree.maxPathBytes) :
    Within linkedTree [utf8 "e", utf8 "d"] p := by
  refine spells.within linkedTree_wellFormed (linkedTree_searchable rfl)
    (fun name there _ => ?_) rfl
    (short p (by simp)) fun dir' found' => ?_
  · rcases linkedTree_sources there with rfl | rfl <;> exact ⟨_, rfl⟩
  · obtain rfl : dir = dir' := Option.some.inj (found.symm.trans found')
    refine ⟨short dir (by simp), fun name there => ?_⟩
    rcases linkedTree_sources there with rfl | rfl <;> exact short _ (by simp)

theorem locate_linkedTree :
    linkedTree.locate .follow (pathOf [utf8 "e", utf8 "d"]) = .ok [utf8 "e", utf8 "d"] := by
  refine FileTree.locate_of_short ?_ (by decide)
  rw [FileTree.trace_eq_walk (by decide) (by simp)]
  exact (FileTree.walk_enter (linkedTree_searchable rfl) (by decide) rfl).trans
    (FileTree.walk_last (linkedTree_searchable rfl) (by decide) rfl (by simp))

theorem isSource_linked : Workspace.IsSource linkedTree "java".toList Settings.defaultExcluded
    [utf8 "e", utf8 "d"] [utf8 "e", utf8 "d", utf8 "A.java"] where
  file := ⟨_, rfl⟩
  extension_eq := by decide
  allowed := ⟨[utf8 "A.java"], by decide, rfl, by decide⟩
  opened := by
    intro dir start ends
    obtain rfl : dir = [utf8 "e", utf8 "d"] := ends.eq_of_length_le start.length_le
    exact FileTree.isOk_list_iff.2 ⟨_, locate_linkedTree, rfl, rfl⟩

/-- A scan through the link and an analysis along it and back agree on a source. -/
theorem linked_source_reports_the_same :
    let w : World := ⟨linkedTree, 7, .epoch⟩
    let place := [utf8 "e", utf8 "d", utf8 "A.java"]
    (bundle linkedTree .epoch (pathOf place)).readings =
        (bundle linkedTree .epoch (.ofString "l/.././d//A.java")).readings ∧
      ∃ places b, place ∈ places ∧
        run w ⟨⟨some 0, none⟩, .scan (.ofString "l") false true⟩ = reportOn w places false true ∧
        run w ⟨⟨none, none⟩, .analyze (.ofString "l/.././d//A.java") true false⟩ =
          .success (analysis (.ofString "l/.././d//A.java") b true false) ∧
        (bundle linkedTree .epoch (pathOf place)).readings = b.readings := by
  intro w place
  have wf : w.tree.WellFormed := linkedTree_wellFormed
  have directory : w.tree.node? [utf8 "e", utf8 "d"] = some .directory := rfl
  have opens : w.tree.canonical (.ofString "l") = .ok (pathOf [utf8 "e", utf8 "d"]) := by
    have leads : w.tree.walk .follow FileTree.maxLinks [] [utf8 "l"] = .ok [utf8 "e", utf8 "d"] :=
      (walk_link_linkedTree []).trans (FileTree.walk_nil ..)
    show (w.tree.walk .follow FileTree.maxLinks [] [utf8 "l"]).bind _ = _
    rw [leads]
    rfl
  have spells_place : Spells w.tree [utf8 "e", utf8 "d"] (utf8 "A.java") (pathOf place) :=
    Workspace.spells_pathOf wf rfl (FileTree.trace_of_locate locate_linkedTree)
  have spells_given : Spells w.tree [utf8 "e", utf8 "d"] (utf8 "A.java")
      (.ofString "l/.././d//A.java") := spells_linked (by decide) (by decide)
  have spells_key : Spells w.tree [utf8 "e", utf8 "d"] (utf8 "A.java")
      (w.key (.ofString "l/.././d//A.java")) := spells_linked (by decide) (by decide)
  have within_place := within_linkedTree spells_place rfl (by decide)
  have within_key := within_linkedTree spells_key rfl (by decide)
  obtain ⟨same, scans⟩ := spellings_report_the_same wf
  refine ⟨(same _ _ _ _ spells_place spells_given
    (within_place.agree (within_linkedTree spells_given rfl (by decide))) _ _).1, ?_⟩
  obtain ⟨places, sources, report, each⟩ := scans _ _ ⟨some 0, none⟩ false true opens directory
  obtain ⟨extension, excluded⟩ := settings_of_no_config wf directory rfl ⟨some 0, none⟩
  have listed : place ∈ places := by
    rw [sources.mem_iff, extension, excluded]
    exact isSource_linked
  obtain ⟨b, analyzed, readings⟩ := each _ _ listed _ spells_given (within_place.agree within_key)
    ⟨none, none⟩ true false
  exact ⟨places, b, listed, report, analyzed, readings⟩

/-! ## Detours -/

/-- A directory that holds a source, a link to the source and a link to the directory itself. -/
def loopTree : FileTree where
  nodes := [([utf8 "A.java"], .file "class A {}".toUTF8), ([utf8 "B.java"], .link (utf8 "A.java")),
    ([utf8 "l"], .link (utf8 "."))]
  cwd := []

theorem loopTree_wellFormed : loopTree.WellFormed :=
  FileTree.wellFormed_of_flat (by decide) (by decide) (by decide) rfl

theorem loopTree_searchable : loopTree.Searchable [] := ⟨rfl, rfl⟩

/-- The path that takes so many rounds through the directory before it comes to the link in
there. -/
def detour (rounds : Nat) : Path := ⟨(List.replicate rounds (utf8 "l/")).flatten ++ utf8 "B.java"⟩

theorem segments_detour (rounds : Nat) :
    Path.segments (detour rounds).bytes = List.replicate rounds (utf8 "l") ++ [utf8 "B.java"] := by
  induction rounds with
  | zero => rfl
  | succ rounds ih =>
    have first := Path.segments_append_slash (utf8 "l") (detour rounds).bytes
    rw [ih] at first
    exact first

theorem endsIn_detour (rounds : Nat) : (detour rounds).EndsIn (utf8 "B.java") :=
  ⟨by rw [segments_detour, List.getLast?_concat], by decide⟩

theorem steps_detour (rounds : Nat) :
    Path.steps (detour rounds).bytes = List.replicate rounds (utf8 "l") ++ [utf8 "B.java"] := by
  rw [Path.steps, segments_detour, List.filter_append, List.filter_replicate]
  rfl

/-- Every round takes a link. -/
theorem walk_detour (rounds left : Nat) (rest : List Bytes) :
    loopTree.walk .follow (rounds + left) [] (List.replicate rounds (utf8 "l") ++ rest) =
      loopTree.walk .follow left [] rest := by
  induction rounds with
  | zero => rw [Nat.zero_add]; rfl
  | succ rounds ih =>
    have link : loopTree.node? ([] ++ [utf8 "l"]) = some (.link (utf8 ".")) := rfl
    have first := (FileTree.walk_link (rounds + left) loopTree_searchable (by decide) link
      (List.replicate rounds (utf8 "l") ++ rest)).2
    rw [Nat.add_right_comm]
    exact first.trans ((FileTree.walk_idle loopTree_searchable rfl).trans ih)

theorem spells_detour {rounds left : Nat} (enough : rounds + left = FileTree.maxLinks) :
    Spells loopTree [] (utf8 "B.java") (detour rounds) := by
  have start : loopTree.startOf (detour rounds) = [] := ite_self _
  have around := walk_detour rounds left []
  rw [List.append_nil, FileTree.walk_nil] at around
  refine Workspace.spells_of_walk (endsIn_detour rounds) loopTree_searchable (steps_detour rounds)
    (fun s round => ?_) ?_
  · rw [List.eq_of_mem_replicate round]
    decide
  · rwa [start, ← enough]

theorem trace_detour {rounds left : Nat} (enough : rounds + left = FileTree.maxLinks) :
    loopTree.trace .follow (detour rounds) = loopTree.walk .follow left [] [utf8 "B.java"] := by
  have noNul : (detour rounds).bytes.contains FileTree.nul = false := by
    rw [FileTree.contains_nul_iff, steps_detour]
    intro s there
    rcases List.mem_append.1 there with round | last
    · rw [List.eq_of_mem_replicate round]
      decide
    · rw [List.mem_singleton.1 last]
      decide
  have start : loopTree.startOf (detour rounds) = [] := ite_self _
  rw [FileTree.trace_eq_of_endsIn (endsIn_detour rounds), noNul, start, steps_detour, ← enough,
    walk_detour]
  rfl

/-- After as many rounds as links can be followed, the link cannot be read, though its directory is
the one that it is read in without a detour. -/
theorem links_run_out :
    loopTree.WellFormed ∧ Spells loopTree [] (utf8 "B.java") (detour 0) ∧
      Spells loopTree [] (utf8 "B.java") (detour FileTree.maxLinks) ∧
      ∀ now later, (bundle loopTree now (detour 0)).sameValues
        (bundle loopTree later (detour FileTree.maxLinks)) = false := by
  refine ⟨loopTree_wellFormed, spells_detour (Nat.zero_add _), spells_detour (Nat.add_zero _), ?_⟩
  have link : loopTree.node? ([] ++ [utf8 "B.java"]) = some (.link (utf8 "A.java")) := rfl
  have follows := FileTree.walk_link 39 loopTree_searchable (by decide) link []
  have reached : loopTree.trace .follow (detour 0) = .ok [utf8 "A.java"] :=
    (trace_detour (Nat.zero_add _)).trans (follows.2.trans
      (FileTree.walk_last loopTree_searchable (by decide) rfl (by simp)))
  have refused : loopTree.trace .follow (detour FileTree.maxLinks) = .error .linkLoop :=
    (trace_detour (Nat.add_zero _)).trans follows.1
  have read : loopTree.readText (detour 0) = .ok "class A {}".toList :=
    FileTree.readText_eq_ok_iff.2
      ⟨_, FileTree.locate_of_short reached (by decide), rfl, _, rfl, by decide⟩
  have unread : (loopTree.readText (detour FileTree.maxLinks)).toOption = none := by
    cases read : loopTree.readText (detour FileTree.maxLinks) with
    | error cause => rfl
    | ok text =>
      obtain ⟨place, found, -⟩ := FileTree.readText_eq_ok_iff.1 read
      rw [FileTree.trace_of_locate found] at refused
      contradiction
  refine fun now later => Bundle.not_sameValues .tcc ?_
  rw [Workspace.isSome_tcc, Workspace.isSome_tcc, read, unread]
  decide

end CommandLine

end CodeGauge
