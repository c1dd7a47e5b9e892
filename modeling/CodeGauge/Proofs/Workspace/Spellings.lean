import CodeGauge.Proofs.FileTree.LookUps
import CodeGauge.Workspace.Measure

/-!
# Spellings of a file

A path spells a file if it ends in the name of the file and its directory, as it is spelled, leads
to the one that the file lies in (`Spells`). From there on all spellings are looked up alike, unless
the system gives one of them up (`FileTree.GivesUp`). As far as it does not, the spellings of a file
have the same readings (`Spells.readings_eq`), and spelling the path out from the root makes no
difference (`Spells.absolute`).
-/

namespace CodeGauge

namespace Bundle

/-- Whether every value of a bundle is equal to itself, as all numbers are. -/
def Numeric (b : Bundle) : Prop := ∀ kind, ∀ x ∈ (b.reading kind).value?, (x == x) = true

theorem sameValues_of_readings_eq {a b : Bundle} (same : a.readings = b.readings)
    (numeric : a.Numeric) :
    a.sameValues b = true := by
  have each (kind : MetricKind) :
      ((kind, (a.reading kind).value?) == (kind, (a.reading kind).value?)) = true := by
    have values : ((a.reading kind).value? == (a.reading kind).value?) = true := by
      cases value : (a.reading kind).value? with
      | none => rfl
      | some x => exact numeric kind x value
    show (kind == kind && _ == _) = true
    rw [values, beq_self_eq_true]
    rfl
  rw [sameValues, ← same, readings]
  induction MetricKind.all with
  | nil => rfl
  | cons kind kinds ih =>
    rw [List.map_cons, List.cons_beq_cons, each, ih]
    rfl

/-- Bundles of which one only has a value have different readings. -/
theorem not_sameValues {a b : Bundle} (kind : MetricKind)
    (differ : (a.reading kind).value?.isSome ≠ (b.reading kind).value?.isSome) :
    a.sameValues b = false := by
  have listed : kind ∈ MetricKind.all := by cases kind <;> decide
  have apart : ((kind, (a.reading kind).value?) == (kind, (b.reading kind).value?)) = false := by
    have values : ((a.reading kind).value? == (b.reading kind).value?) = false := by
      cases value : (a.reading kind).value? <;> cases value' : (b.reading kind).value? <;> simp_all
    show (kind == kind && _ == _) = false
    rw [values, Bool.and_false]
  rw [sameValues, readings, readings]
  generalize MetricKind.all = kinds at listed ⊢
  induction kinds with
  | nil => contradiction
  | cons first kinds ih =>
    rw [List.map_cons, List.map_cons, List.cons_beq_cons]
    rcases List.mem_cons.1 listed with rfl | later
    · rw [apart, Bool.false_and]
    · rw [ih later, Bool.and_false]

end Bundle

namespace Workspace

variable {t : FileTree} {p q : Path} {loc : Location} {n : Bytes}

/-! ## Readings -/

/-- The texts of the other sources beside a file. -/
def otherTexts (t : FileTree) (p : Path) : Option (List Text) :=
  (siblings t p).toOption.map (·.map (·.2))

theorem value?_measureFile {α β : Type} (f : α → β) (metric : Text → α) :
    (reading f (measureFile metric t p)).value? = (t.readText p).toOption.map (f ∘ metric) := by
  rw [measureFile, read]
  cases t.readText p <;> rfl

theorem toOption_measureAmong {α : Type} (metric : Text → List Text → α) :
    (measureAmong metric t p).toOption =
      (t.readText p).toOption.bind fun source => (otherTexts t p).map (metric source) := by
  rw [measureAmong, read, otherTexts]
  cases t.readText p with
  | error cause => rfl
  | ok source => cases siblings t p <;> rfl

theorem value?_reading {α β : Type} (f : α → β) (x : Except MetricError α) :
    (reading f x).value? = x.toOption.map f := by
  cases x <;> rfl

theorem toOption_instability :
    (instability t p).toOption = (measureAmong Instability.ofSources t p).toOption.join := by
  rw [instability]
  cases measureAmong Instability.ofSources t p with
  | error e => rfl
  | ok share => cases share <;> rfl

/-- What is measured of a file alone has a value if the file can be read. -/
theorem isSome_tcc (now : Instant) :
    ((bundle t now p).reading .tcc).value?.isSome = (t.readText p).toOption.isSome := by
  show (reading Share.toFloat (tightCohesion t p)).value?.isSome = _
  rw [tightCohesion, value?_measureFile, Option.isSome_map]

/-- The readings of a file can be told from its text and those of the sources beside it. -/
theorem readings_eq_of_texts (text : (t.readText p).toOption = (t.readText q).toOption)
    (others : otherTexts t p = otherTexts t q) (now later : Instant) :
    (bundle t now p).readings = (bundle t later q).readings := by
  have own {α β : Type} (f : α → β) (metric : Text → α) :
      (reading f (measureFile metric t p)).value? =
        (reading f (measureFile metric t q)).value? := by
    rw [value?_measureFile, value?_measureFile, text]
  have among {α : Type} (metric : Text → List Text → α) :
      (measureAmong metric t p).toOption = (measureAmong metric t q).toOption := by
    rw [toOption_measureAmong, toOption_measureAmong, text, others]
  have counted {r s : Reading Nat} (same : r.value? = s.value?) :
      (r.map Float.ofNat).value? = (s.map Float.ofNat).value? := by
    cases r <;> cases s <;> simp_all [Reading.value?, Reading.map]
  refine List.map_congr_left fun kind _ => congrArg _ ?_
  cases kind with
  | afferentCoupling =>
    refine counted ((value?_reading ..).trans (.trans ?_ (value?_reading ..).symm))
    exact congrArg _ (among _)
  | instability =>
    refine (value?_reading ..).trans (.trans ?_ (value?_reading ..).symm)
    rw [toOption_instability, toOption_instability, among]
  | tcc => exact own _ _
  | _ => exact counted (own _ _)

/-! ## Spellings -/

/-- Whether a path spells what the directory at a location has under a name. -/
structure Spells (t : FileTree) (loc : Location) (n : Bytes) (p : Path) : Prop where
  ends : p.EndsIn n
  directory : t.node? loc = some .directory
  leads : ∃ dir, directory? p = some dir ∧ t.trace .follow dir = .ok loc

/-- Whether the system gives up on both of two spellings or on neither: those of the file, of its
directory and of each source there. -/
structure LimitsAgree (t : FileTree) (loc : Location) (p q : Path) : Prop where
  file : t.GivesUp p ↔ t.GivesUp q
  directory : ∀ dir ∈ directory? p, ∀ dir' ∈ directory? q, (t.GivesUp dir ↔ t.GivesUp dir')
  beside : ∀ dir ∈ directory? p, ∀ dir' ∈ directory? q, ∀ name, (t.node? (loc ++ [name])).isSome →
    Path.nameExtension? name = some sourceExtension.utf8 →
      (t.GivesUp (dir.join name) ↔ t.GivesUp (dir'.join name))

theorem otherTexts_eq {dir : Path} (found : directory? p = some dir) :
    otherTexts t p = (t.list dir).toOption.map fun entries =>
      ((entries.filter fun e => (dir.join e.1).hasExtension sourceExtension && p.fileName? ≠
        some e.1).mergeSort
        fun a b => Bytes.le a.1 b.1).filterMap fun e => (t.readText (dir.join e.1)).toOption := by
  rw [otherTexts, siblings, found]
  simp only
  cases t.list dir with
  | error cause => rfl
  | ok entries =>
    simp only [Except.toOption, Option.map_some, List.map_filterMap, Option.map_map]
    congr 2
    funext e
    cases t.readText (dir.join e.1) <;> rfl

/-- Whether an entry is a source can be told from its name, however its directory is spelled. -/
theorem hasExtension_entry (wf : t.WellFormed) {e : Bytes × Node} (there : e ∈ t.entriesAt loc)
    {dir : Path} (spelled : dir.bytes ≠ []) : (dir.join e.1).hasExtension sourceExtension =
      decide (Path.nameExtension? e.1 = some sourceExtension.utf8) := by
  have named : ∀ n ∈ [] ++ [e.1], FileTree.isName n = true :=
    wf.isName_of_node? (by simp) (FileTree.node?_of_mem_entriesAt wf there)
  exact Bool.eq_iff_iff.2
    (by simp [← Path.hasExtension_joinAll spelled named sourceExtension, Path.joinAll])

theorem toOption_readText {place place' : Except AccessError Location}
    (leads : t.locate .follow p = place) (leads' : t.locate .follow q = place')
    (same : place.toOption = place'.toOption) :
    (t.readText p).toOption = (t.readText q).toOption := by
  rw [FileTree.readText, FileTree.readText, Except.toOption_bind, Except.toOption_bind, leads,
    leads', same]

namespace Spells

/-- Every spelling looks for the name in the directory. -/
theorem exists_lookUp (h : Spells t loc n p) : ∃ left, t.trace .follow p = t.lookUp left loc n := by
  obtain ⟨dir, found, leads⟩ := h.leads
  obtain ⟨dir', found', spelled⟩ := h.ends.exists_directory
  obtain rfl : dir = dir' := Option.some.inj (found.symm.trans found')
  obtain ⟨left, looks⟩ := FileTree.exists_lookUp leads
  exact ⟨left, looks p n h.ends spelled.absolute.symm spelled.steps⟩

variable (h : Spells t loc n p) (g : Spells t loc n q) (limits : LimitsAgree t loc p q)
include h g limits

theorem text_eq : (t.readText p).toOption = (t.readText q).toOption := by
  obtain ⟨left, looks⟩ := h.exists_lookUp
  obtain ⟨right, looks'⟩ := g.exists_lookUp
  exact toOption_readText rfl rfl (FileTree.locate_agree looks looks' limits.file)

theorem otherTexts_eq (wf : t.WellFormed) : otherTexts t p = otherTexts t q := by
  obtain ⟨dir, found, leads⟩ := h.leads
  obtain ⟨dir', found', leads'⟩ := g.leads
  have spelled := (FileTree.steps_of_trace leads).2.1
  have spelled' := (FileTree.steps_of_trace leads').2.1
  have opened : (t.list dir).toOption = (t.list dir').toOption := by
    rw [FileTree.list, FileTree.list, Except.toOption_bind, Except.toOption_bind,
      FileTree.locate_agree_of_trace (fun _ _ => leads.trans leads'.symm)
        (limits.directory dir found dir' found')]
  rw [Workspace.otherTexts_eq found, Workspace.otherTexts_eq found', h.ends.fileName?_eq,
    g.ends.fileName?_eq, ← opened]
  cases listed : t.list dir with
  | error cause => rfl
  | ok entries =>
    obtain ⟨place, there, -, -, rfl⟩ := FileTree.list_eq_ok_iff.1 listed
    obtain rfl : place = loc := Except.ok.inj ((FileTree.trace_of_locate there).symm.trans leads)
    have chosen :
        ((t.entriesAt place).filter fun e => (dir.join e.1).hasExtension sourceExtension &&
          (if n = [Path.dot, Path.dot] then none else some n) ≠ some e.1) =
        (t.entriesAt place).filter fun e => (dir'.join e.1).hasExtension sourceExtension &&
          (if n = [Path.dot, Path.dot] then none else some n) ≠ some e.1 :=
      List.filter_congr fun e there => by
        rw [hasExtension_entry wf there spelled, hasExtension_entry wf there spelled']
    simp only [Except.toOption, Option.map_some, chosen]
    refine congrArg some (List.filterMap_congr fun e there => ?_)
    obtain ⟨entry, kept⟩ := List.mem_filter.1 (List.mem_mergeSort.1 there)
    have here := FileTree.node?_of_mem_entriesAt wf entry
    have named : FileTree.isName e.1 = true := wf.isName_of_node? (by simp) here e.1 (by simp)
    have java : Path.nameExtension? e.1 = some sourceExtension.utf8 := by
      have chosen := (Bool.and_eq_true_iff.1 kept).1
      rwa [hasExtension_entry wf entry spelled', decide_eq_true_iff] at chosen
    obtain ⟨left, looks⟩ := FileTree.exists_lookUp_join leads
    obtain ⟨right, looks'⟩ := FileTree.exists_lookUp_join leads'
    exact toOption_readText rfl rfl (FileTree.locate_agree (looks e.1 named) (looks' e.1 named)
      (limits.beside dir found dir' found' e.1 (by simp [here]) java))

/-- As far as the system does not give them up, the spellings of a file have the same readings. -/
theorem readings_eq (wf : t.WellFormed) (now later : Instant) :
    (bundle t now p).readings = (bundle t later q).readings :=
  readings_eq_of_texts (h.text_eq g limits) (h.otherTexts_eq g limits wf) now later

end Spells

/-! ## Spellings from the root -/

theorem steps_pathOf (named : ∀ n ∈ loc, FileTree.isName n = true) :
    Path.steps (FileTree.pathOf loc).bytes = loc := by
  have visible : ∀ n ∈ loc, Path.isIdle n = false := fun n there => by
    have := named n there
    simp_all [FileTree.isName]
  rw [FileTree.pathOf, Path.steps_slash, Path.steps_join_segments fun n there =>
    Path.slash_not_mem_of_isName (named n there)]
  exact List.filter_eq_self.2 fun n there => by simp [visible n there]

/-- The directory of an absolute path is looked up along its steps. -/
theorem trace_directory {dir : Path} (ends : p.EndsIn n) (rooted : p.isAbsolute = true)
    (found : directory? p = some dir) (noNul : dir.bytes.contains FileTree.nul = false) :
    t.trace .follow dir = t.walk .follow FileTree.maxLinks [] (Path.steps dir.bytes) := by
  obtain ⟨dir', found', spelled⟩ := ends.exists_directory
  obtain rfl : dir = dir' := Option.some.inj (found.symm.trans found')
  rcases ends.directory_of_absolute rooted found with rfl | ⟨m, last⟩
  · -- Both segments of the root are empty, so that nothing is looked up.
    exact (t.trace_root .follow).trans (FileTree.walk_nil ..).symm
  · rw [FileTree.trace_eq_of_endsIn last, noNul, FileTree.startOf, spelled.absolute, rooted]
    rfl

/-- A path spells what lies where the steps before its last one lead. -/
theorem spells_of_walk (ends : p.EndsIn n) (searchable : t.Searchable loc) {segs : List Bytes}
    (steps : Path.steps p.bytes = segs ++ [n]) (noNul : ∀ s ∈ segs, FileTree.nul ∉ s)
    (walks : t.walk .follow FileTree.maxLinks (t.startOf p) segs = .ok loc) : Spells t loc n p := by
  obtain ⟨dir, found, spelled⟩ := ends.exists_directory
  obtain rfl : segs = Path.steps dir.bytes :=
    List.append_cancel_right (steps.symm.trans spelled.steps)
  have start : t.startOf dir = t.startOf p := by
    rw [FileTree.startOf, spelled.absolute, FileTree.startOf]
  refine ⟨ends, searchable.directory, dir, found, ?_⟩
  rw [FileTree.trace, FileTree.contains_nul_iff.2 noNul, if_neg (by simp),
    if_neg (by simpa using spelled.spelled), start]
  exact FileTree.walk_of_filter_ok searchable walks

theorem nul_not_mem_of_isName (named : FileTree.isName n = true) : FileTree.nul ∉ n := by
  simp_all [FileTree.isName]

/-- The path of a location spells what stands there, if the path of its directory leads there. -/
theorem spells_pathOf (wf : t.WellFormed) {node : Node} (there : t.node? (loc ++ [n]) = some node)
    (leads : t.trace .follow (FileTree.pathOf loc) = .ok loc) :
    Spells t loc n (FileTree.pathOf (loc ++ [n])) := by
  have named : ∀ m ∈ loc ++ [n], FileTree.isName m = true := wf.isName_of_located there
  have segments : Path.segments (FileTree.pathOf (loc ++ [n])).bytes = ([] :: loc) ++ [n] :=
    (Path.segments_slash _).trans (congrArg _ (Path.segments_join (by simp) named))
  have ends : (FileTree.pathOf (loc ++ [n])).EndsIn n := by
    have last := named n (by simp)
    exact ⟨by rw [segments, List.getLast?_concat], by simp_all [FileTree.isName]⟩
  exact ⟨ends, wf.node?_above (by simp) there, _, Path.directory?_pathOf named, leads⟩

/-- A path that is spelled out from the root spells the same, unless its directory is given up
on. -/
theorem Spells.absolute (h : Spells t loc n p) (wf : t.WellFormed)
    (keeps : ∀ dir ∈ directory? (Path.absolute t.cwdPath p), ¬ t.GivesUp dir) :
    Spells t loc n (Path.absolute t.cwdPath p) := by
  obtain ⟨dir, found, leads⟩ := h.leads
  obtain ⟨dir', found', spelled⟩ := h.ends.exists_directory
  obtain rfl : dir = dir' := Option.some.inj (found.symm.trans found')
  obtain ⟨noNul, -, walks⟩ := FileTree.steps_of_trace leads
  obtain ⟨ends, root, steps⟩ := h.ends.absolute t.cwdPath rfl
  obtain ⟨dir', found', spelled'⟩ := ends.exists_directory
  have named : ∀ n ∈ t.cwd, FileTree.isName n = true := wf.isName_of_located wf.cwd_directory
  -- The steps of the working directory come first, unless the path starts at the root.
  have cwd : Path.steps t.cwdPath.bytes = t.cwd := steps_pathOf named
  rw [spelled'.steps, spelled.steps, cwd, ← List.append_assoc] at steps
  have steps := List.append_cancel_right steps
  rw [FileTree.startOf, spelled.absolute] at walks
  have noNul' : dir'.bytes.contains FileTree.nul = false := by
    rw [FileTree.contains_nul_iff, steps]
    refine List.forall_mem_append.2 ⟨fun s there => ?_, FileTree.contains_nul_iff.1 noNul⟩
    split at there
    · contradiction
    · exact nul_not_mem_of_isName (named s there)
  have looks := trace_directory (t := t) ends root found' noNul'
  rw [steps] at looks
  by_cases rooted : p.isAbsolute
  · rw [if_pos rooted] at walks looks
    exact ⟨ends, h.directory, dir', found', looks.trans walks⟩
  · rw [if_neg rooted] at walks looks
    have below : t.node? ([] ++ t.cwd) = some .directory := wf.cwd_directory
    rcases FileTree.walk_down wf below .follow FileTree.maxLinks with ⟨wording, refused⟩ | goes
    · exact absurd (FileTree.givesUp_of_refused (looks.trans (refused _))) (keeps dir' found')
    · exact ⟨ends, h.directory, dir', found', looks.trans ((goes _).trans walks)⟩

/-! ## Spellings that are not given up on -/

/-- Whether the system gives up neither on a spelling nor on its directory or a source there. -/
structure Within (t : FileTree) (loc : Location) (p : Path) : Prop where
  file : ¬ t.GivesUp p
  directory : ∀ dir ∈ directory? p, ¬ t.GivesUp dir
  beside : ∀ dir ∈ directory? p, ∀ name, (t.node? (loc ++ [name])).isSome →
    Path.nameExtension? name = some sourceExtension.utf8 → ¬ t.GivesUp (dir.join name)

theorem Within.agree (h : Within t loc p) (g : Within t loc q) : LimitsAgree t loc p q where
  file := iff_of_false h.file g.file
  directory dir found dir' found' := iff_of_false (h.directory dir found) (g.directory dir' found')
  beside dir found dir' found' name there java :=
    iff_of_false (h.beside dir found name there java) (g.beside dir' found' name there java)

/-- If names can be looked up in the directory, and what is spelled is a file, and so is every
source beside it, short paths are not given up on. -/
theorem Spells.within (h : Spells t loc n p) (wf : t.WellFormed) (searchable : t.Searchable loc)
    (files : ∀ name, (t.node? (loc ++ [name])).isSome →
      Path.nameExtension? name = some sourceExtension.utf8 →
      ∃ bytes, t.node? (loc ++ [name]) = some (.file bytes))
    {bytes : ByteArray} (file : t.node? (loc ++ [n]) = some (.file bytes))
    (short : p.bytes.length ≤ FileTree.maxPathBytes)
    (short_dir : ∀ dir ∈ directory? p, dir.bytes.length ≤ FileTree.maxPathBytes ∧
      ∀ name, (t.node? (loc ++ [name])).isSome →
        (dir.join name).bytes.length ≤ FileTree.maxPathBytes) :
    Within t loc p := by
  obtain ⟨dir, found, leads⟩ := h.leads
  obtain ⟨left, looks⟩ := h.exists_lookUp
  obtain ⟨right, looks'⟩ := FileTree.exists_lookUp_join leads
  have named {name : Bytes} {node : Node} (there : t.node? (loc ++ [name]) = some node) :
      FileTree.isName name = true := wf.isName_of_node? (by simp) there name (by simp)
  have reached := looks.trans (FileTree.lookUp_plain searchable (named file) file (by simp))
  refine ⟨?_, fun dir' found' => ?_, fun dir' found' name there java => ?_⟩
  · exact (FileTree.givesUp_iff_of_trace reached).not.2 (not_not.2 short)
  · obtain rfl : dir = dir' := Option.some.inj (found.symm.trans found')
    exact (FileTree.givesUp_iff_of_trace leads).not.2 (not_not.2 (short_dir dir found).1)
  · obtain rfl : dir = dir' := Option.some.inj (found.symm.trans found')
    obtain ⟨bytes, file⟩ := files name there java
    have reached' := (looks' name (named file)).trans
      (FileTree.lookUp_plain searchable (named file) file (by simp))
    exact (FileTree.givesUp_iff_of_trace reached').not.2
      (not_not.2 ((short_dir dir found).2 name there))

end Workspace

end CodeGauge
