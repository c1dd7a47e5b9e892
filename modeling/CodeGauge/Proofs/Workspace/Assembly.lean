import CodeGauge.Proofs.FileTree.LookUps
import CodeGauge.Workspace.Measure

/-!
# What becomes of failures in a bundle

The eight readings of a bundle are taken one by one, and each of them reads the file anew. Whatever
the path and the tree, a bundle can still be told from one reading of the file and one of its
siblings (`failures_stay_apart`).

Of the three kinds of errors one never gets into a bundle. A path without a parent is empty or a
spelling of the root (`Path.idle_of_parent?_eq_none`), so there is no file to be read
(`FileTree.readText_of_parent?_eq_none`), and the siblings of a file that can be read are not missed
for want of a directory (`siblings_ne_noDirectory`).
-/

namespace CodeGauge

/-! ## Paths without a parent -/

namespace Path

theorem idle_of_dropIdleEnd {segs : List Bytes} (h : (dropIdleEnd segs).reverse = []) :
    ∀ segment ∈ segs, isIdle segment = true := by
  rw [dropIdleEnd, List.reverse_reverse, List.dropWhile_eq_nil_iff] at h
  exact fun segment there => h segment (List.mem_reverse.2 there)

/-- How a path may start whose segments all say nothing. -/
theorem cases_of_idle {t : Bytes} (idle : ∀ segment ∈ segments t, isIdle segment = true) :
    t = [] ∨ (∃ rest, t = sep :: rest) ∨ t = [dot] ∨ ∃ rest, t = dot :: sep :: rest := by
  have first := Text.head?_splitWhere (· == sep) t
  have start := idle _ (List.mem_of_mem_head? first)
  rcases t with _ | ⟨c, rest⟩
  · exact .inl rfl
  · by_cases slash : c = sep
    · exact .inr (.inl ⟨rest, by rw [slash]⟩)
    · rcases rest with _ | ⟨d, rest⟩
      · simp_all [isIdle]
      · by_cases slash' : d = sep <;> simp_all [isIdle]

/-- Only the empty path and the spellings of the root have no parent. -/
theorem idle_of_parent?_eq_none {p : Path} (h : p.parent? = none) :
    p.bytes = [] ∨ p.isAbsolute = true ∧ ∀ segment ∈ segments p.bytes, isIdle segment = true := by
  obtain ⟨text⟩ := p
  unfold parent? at h
  simp only at h
  split at h
  next ends =>
    have idle := idle_of_dropIdleEnd ends
    unfold splitLead at h idle
    by_cases root : text.head? = some sep
    · obtain ⟨rest, rfl⟩ := List.head?_eq_some_iff.1 root
      refine .inr ⟨rfl, ?_⟩
      simpa [segments_slash, isIdle] using idle
    · rw [if_neg root] at h idle
      by_cases here : text = [dot] ∨ [dot, sep].isPrefixOf text = true
      · rw [if_pos here] at h
        simp at h
      · rw [if_neg here] at idle
        rcases cases_of_idle idle with empty | ⟨rest, rfl⟩ | rfl | ⟨rest, rfl⟩
        · exact .inl empty
        · simp at root
        · simp at here
        · simp at here
  next => simp at h

end Path

namespace FileTree

/-- What has no parent is no file. -/
theorem readText_of_parent?_eq_none (t : FileTree) {p : Path} (h : p.parent? = none) :
    ∃ cause, t.readText p = .error cause := by
  cases read : t.readText p with
  | error cause => exact ⟨cause, rfl⟩
  | ok text =>
    obtain ⟨loc, found, -, bytes, file, -⟩ := readText_eq_ok_iff.1 read
    obtain ⟨spelled, walks⟩ := locate_eq_walk found
    obtain ⟨absolute, idle⟩ := (Path.idle_of_parent?_eq_none h).resolve_left spelled
    rw [walks, startOf, if_pos absolute] at found
    obtain rfl := eq_of_walk_idles rfl idle found
    simp [node?] at file

end FileTree

/-! ## Wordings -/

namespace MetricError

theorem toList_prefix_append (fixed more : String) : fixed.toList <+: (fixed ++ more).toList := by
  rw [String.toList_append]
  exact List.prefix_append ..

theorem unreadable_start (path : Path) (cause : AccessError) :
    "cannot read ".toList <+: (unreadable path cause).message.toList :=
  (toList_prefix_append _ _).trans ((toList_prefix_append _ _).trans (toList_prefix_append _ _))

theorem noType_start (path : Path) :
    "no class or interface declared in ".toList <+: (noType path).message.toList :=
  toList_prefix_append ..

theorem noDirectory_start (path : Path) :
    "cannot determine the directory of ".toList <+: (noDirectory path).message.toList :=
  toList_prefix_append ..

/-- No other error is worded like the one that a path has no directory. -/
theorem message_ne_noDirectory {e : MetricError} (other : ∀ p, e ≠ noDirectory p) (p : Path) :
    e.message ≠ (noDirectory p).message := by
  intro same
  have start := noDirectory_start p
  rw [← same] at start
  cases e with
  | unreadable q cause =>
    exact absurd (List.prefix_or_prefix_of_prefix (unreadable_start q cause) start) (by decide)
  | noType q => exact absurd (List.prefix_or_prefix_of_prefix (noType_start q) start) (by decide)
  | noDirectory q => exact other q rfl

end MetricError

/-! ## The type that instability needs -/

namespace TypeHeader

/-- There is no first type of some kinds if no type is of one of them. -/
theorem primary?_eq_none_iff {decls : List TypeDecl} {kinds : List TypeKind} :
    primary? decls kinds = none ↔ ∀ d ∈ decls, d.kind ∉ kinds := by
  simp only [primary?, List.findSome?_eq_none_iff, Option.map_eq_none_iff, List.find?_eq_none,
    decide_eq_true_eq]
  constructor
  · intro h d there listed
    exact h d.kind listed d there rfl
  · rintro h kind listed d there rfl
    exact h d there listed

end TypeHeader

namespace Instability

/-- Whether a source declares a class or an interface. -/
def Anchored (source : Text) : Prop :=
  ∃ d ∈ TypeHeader.declarations (Source.stripped source),
    d.kind ∈ [TypeKind.classKind, .interfaceKind]

theorem ofSources_eq_none_iff {source : Text} {siblings : List Text} :
    ofSources source siblings = none ↔ ¬ Anchored source := by
  unfold ofSources Anchored
  simp only [Option.map_eq_none_iff, TypeHeader.primary?_eq_none_iff]
  push Not
  rfl

end Instability

/-! ## Bundles -/

namespace Workspace

variable {t : FileTree} {path : Path} {source : Text}

/-- A file that can be read has a directory. -/
theorem siblings_ne_noDirectory (reads : read t path = .ok source) {e : MetricError}
    (fails : siblings t path = .error e) (p : Path) : e ≠ .noDirectory p := by
  unfold siblings directory? at fails
  split at fails
  next none =>
    obtain ⟨cause, unread⟩ := t.readText_of_parent?_eq_none (by simpa using none)
    rw [read, unread] at reads
    contradiction
  next dir _ =>
    split at fails
    · cases fails
      simp
    · contradiction

theorem measureFile_eq {α : Type} (metric : Text → α) (reads : read t path = .ok source) :
    measureFile metric t path = .ok (metric source) := by
  rw [measureFile, reads]
  rfl

theorem measureAmong_eq {α : Type} (metric : Text → List Text → α)
    (reads : read t path = .ok source) :
    measureAmong metric t path =
      (siblings t path).map fun others => metric source (others.map (·.2)) := by
  rw [measureAmong, reads]
  cases siblings t path <;> rfl

/-- The readings that need only the file itself. -/
structure OwnReadings (b : Bundle) (source : Text) : Prop where
  cognitive : b.cognitiveComplexity = .value (Cognitive.complexity source).toNat
  cyclomatic : b.cyclomaticComplexity = .value (Cyclomatic.complexity source)
  efferent : b.efferentCoupling = .value (Efferent.coupling source)
  lcom : b.lcom = .value (Cohesion.lack source)
  tcc : b.tcc = .value (Cohesion.tight source).toFloat
  wmc : b.wmc = .value (WeightedMethods.count source)

/-- The readings that need the siblings too, where these are known. -/
structure CouplingReadings (b : Bundle) (path : Path) (source : Text)
    (others : List Text) : Prop where
  afferent : b.afferentCoupling = .value (Afferent.coupling source others)
  anchored : Instability.Anchored source →
    ∃ share, Instability.ofSources source others = some share ∧ b.instability = .value share.toFloat
  unanchored : ¬ Instability.Anchored source →
    b.instability = .unavailable (MetricError.noType path).message

variable (now : Instant)

theorem reasons_of_unread {e : MetricError} (fails : read t path = .error e) :
    (bundle t now path).reasons = List.replicate 8 (some e.message) := by
  have file {α : Type} (metric : Text → α) : measureFile metric t path = .error e := by
    rw [measureFile, fails]
    rfl
  have among {α : Type} (metric : Text → List Text → α) :
      measureAmong metric t path = .error e := by
    rw [measureAmong, fails]
    rfl
  simp [Bundle.reasons, MetricKind.all, Bundle.reading, bundle, afferentCoupling,
    cognitiveComplexity, cyclomaticComplexity, efferentCoupling, instability, lackOfCohesion,
    tightCohesion, weightedMethods, file, among, reading, Reading.map, Reading.reason?, bind,
    Except.bind, List.replicate]

theorem ownReadings_of_read (reads : read t path = .ok source) :
    OwnReadings (bundle t now path) source := by
  have file {α β : Type} (f : α → β) (metric : Text → α) :
      reading f (measureFile metric t path) = .value (f (metric source)) := by
    rw [measureFile_eq metric reads]
    rfl
  exact ⟨file id _, file id _, file id _, file id _, file Share.toFloat _, file id _⟩

theorem couplingReadings_of_read (reads : read t path = .ok source) {others : List (Path × Text)}
    (found : siblings t path = .ok others) :
    CouplingReadings (bundle t now path) path source (others.map (·.2)) := by
  have among {α : Type} (metric : Text → List Text → α) :
      measureAmong metric t path = .ok (metric source (others.map (·.2))) := by
    rw [measureAmong_eq metric reads, found]
    rfl
  have stable (outcome : Option Share)
      (same : Instability.ofSources source (others.map (·.2)) = outcome) :
      instability t path = outcome.elim (.error (.noType path)) .ok := by
    rw [instability, among, ← same]
    cases Instability.ofSources source (others.map (·.2)) <;> rfl
  refine ⟨?_, ?_, ?_⟩
  · exact congrArg (reading id) (among Afferent.coupling)
  · intro anchored
    have declared : Instability.ofSources source (others.map (·.2)) ≠ none :=
      fun none => Instability.ofSources_eq_none_iff.1 none anchored
    obtain ⟨share, found⟩ := Option.ne_none_iff_exists'.1 declared
    exact ⟨share, found, congrArg (reading Share.toFloat) (stable _ found)⟩
  · intro unanchored
    exact congrArg (reading Share.toFloat)
      (stable none (Instability.ofSources_eq_none_iff.2 unanchored))

theorem unavailable_of_no_siblings (reads : read t path = .ok source) {e : MetricError}
    (fails : siblings t path = .error e) :
    (bundle t now path).afferentCoupling = .unavailable e.message ∧
      (bundle t now path).instability = .unavailable e.message := by
  have among {α : Type} (metric : Text → List Text → α) :
      measureAmong metric t path = .error e := by
    rw [measureAmong_eq metric reads, fails]
    rfl
  have unstable : instability t path = .error e := by
    rw [instability, among]
    rfl
  exact ⟨congrArg (reading id) (among Afferent.coupling), congrArg (reading Share.toFloat) unstable⟩

theorem exists_unreadable {e : MetricError} (fails : read t path = .error e) :
    ∃ cause, e = .unreadable path cause := by
  unfold read at fails
  cases cause : t.readText path with
  | ok text => simp [cause, Except.mapError] at fails
  | error cause' => exact ⟨cause', by simpa [cause, Except.mapError] using fails.symm⟩

/-- Whatever a metric needs, it does not fail for want of a directory. -/
theorem measureAmong_ne_noDirectory {α : Type} {metric : Text → List Text → α} {e : MetricError}
    (fails : measureAmong metric t path = .error e) (p : Path) : e ≠ .noDirectory p := by
  cases reads : read t path with
  | error cause =>
    rw [measureAmong, reads] at fails
    obtain rfl : cause = e := Except.error.inj fails
    obtain ⟨cause, rfl⟩ := exists_unreadable reads
    simp
  | ok source =>
    rw [measureAmong_eq metric reads] at fails
    cases found : siblings t path with
    | error cause =>
      rw [found] at fails
      obtain rfl : cause = e := Except.error.inj fails
      exact siblings_ne_noDirectory reads found p
    | ok others => simp [found, Except.map] at fails

theorem measureFile_ne_noDirectory {α : Type} {metric : Text → α} {e : MetricError}
    (fails : measureFile metric t path = .error e) (p : Path) : e ≠ .noDirectory p := by
  cases reads : read t path with
  | error cause =>
    rw [measureFile, reads] at fails
    obtain rfl : cause = e := Except.error.inj fails
    obtain ⟨cause, rfl⟩ := exists_unreadable reads
    simp
  | ok source => simp [measureFile_eq metric reads] at fails

theorem instability_ne_noDirectory {e : MetricError} (fails : instability t path = .error e)
    (p : Path) :
    e ≠ .noDirectory p := by
  cases found : measureAmong Instability.ofSources t path with
  | error cause =>
    rw [instability, found] at fails
    obtain rfl : cause = e := Except.error.inj fails
    exact measureAmong_ne_noDirectory found p
  | ok share? =>
    rw [instability, found] at fails
    cases share? with
    | some share => cases fails
    | none =>
      cases fails
      simp

theorem reason?_reading {α β : Type} {f : α → β} {x : Except MetricError α} {reason : String}
    (given : (reading f x).reason? = some reason) : ∃ e, x = .error e ∧ reason = e.message := by
  cases x with
  | ok x => simp [reading, Reading.reason?] at given
  | error e => exact ⟨e, rfl, by simpa [reading, Reading.reason?] using given.symm⟩

theorem reason?_map {α β : Type} (f : α → β) (r : Reading α) : (r.map f).reason? = r.reason? := by
  cases r <;> rfl

theorem noDirectory_not_mem_reasons (p : Path) :
    some (MetricError.noDirectory p).message ∉ (bundle t now path).reasons := by
  intro given
  obtain ⟨kind, -, given⟩ := List.mem_map.1 given
  -- Every metric but the instability is measured on its own or among its siblings.
  have never {e : MetricError} (other : ∀ p, e ≠ .noDirectory p)
      (same : (MetricError.noDirectory p).message = e.message) : False :=
    MetricError.message_ne_noDirectory other p same.symm
  cases kind with
  | afferentCoupling =>
    obtain ⟨e, fails, same⟩ := reason?_reading (reason?_map _ _ ▸ given)
    exact never (measureAmong_ne_noDirectory fails) same
  | instability =>
    obtain ⟨e, fails, same⟩ := reason?_reading given
    exact never (instability_ne_noDirectory fails) same
  | tcc =>
    obtain ⟨e, fails, same⟩ := reason?_reading given
    exact never (measureFile_ne_noDirectory fails) same
  | _ =>
    obtain ⟨e, fails, same⟩ := reason?_reading (reason?_map _ _ ▸ given)
    exact never (measureFile_ne_noDirectory fails) same

/-- If a file cannot be read, all its readings carry that one error. If it can, the six readings of
the file alone are there; the afferent coupling is there if the siblings are, and so is the
instability if the file also declares a class or an interface. No reading is missing for want of a
directory. -/
theorem failures_stay_apart (t : FileTree) (now : Instant) (path : Path) :
    let b := bundle t now path
    (∀ e, read t path = .error e →
      ∃ cause, e = .unreadable path cause ∧ b.reasons = List.replicate 8 (some e.message)) ∧
    (∀ source, read t path = .ok source →
      OwnReadings b source ∧
      ((∃ n, b.afferentCoupling = .value n) ↔ ∃ others, siblings t path = .ok others) ∧
      ((∃ x, b.instability = .value x) ↔
        (∃ others, siblings t path = .ok others) ∧ Instability.Anchored source) ∧
      (∀ others, siblings t path = .ok others →
        CouplingReadings b path source (others.map (·.2))) ∧
      ∀ e, siblings t path = .error e →
        b.afferentCoupling = .unavailable e.message ∧ b.instability = .unavailable e.message) ∧
    ∀ p, some (MetricError.noDirectory p).message ∉ b.reasons := by
  refine ⟨?_, ?_, noDirectory_not_mem_reasons now⟩
  · intro e fails
    obtain ⟨cause, same⟩ := exists_unreadable fails
    exact ⟨cause, same, reasons_of_unread now fails⟩
  · intro source reads
    refine ⟨ownReadings_of_read now reads, ?_⟩
    cases found : siblings t path with
    | error e =>
      obtain ⟨afferent, stable⟩ := unavailable_of_no_siblings now reads found
      simp [afferent, stable]
    | ok others =>
      have readings := couplingReadings_of_read now reads found
      refine ⟨⟨fun _ => ⟨others, rfl⟩, fun _ => ⟨_, readings.afferent⟩⟩, ⟨?_, ?_⟩, ?_, by simp⟩
      · rintro ⟨x, available⟩
        refine ⟨⟨others, rfl⟩, ?_⟩
        by_contra unanchored
        rw [readings.unanchored unanchored] at available
        contradiction
      · rintro ⟨-, anchored⟩
        obtain ⟨share, -, available⟩ := readings.anchored anchored
        exact ⟨share.toFloat, available⟩
      · intro others' same
        obtain rfl : others = others' := Except.ok.inj same
        exact readings

/-- An enumeration beside a class, in the working directory, and a class in a directory that must
not be listed. -/
def enumTree : FileTree where
  nodes :=
    [([utf8 "E.java"], .file "enum E {}".toUTF8), ([utf8 "B.java"], .file "class B {}".toUTF8),
      ([utf8 "src"], .directory), ([utf8 "src", utf8 "A.java"], .file "class A {}".toUTF8)]
  cwd := []
  refusals := [⟨[utf8 "src"], .read, "Permission denied (os error 13)"⟩]

theorem enumTree_searchable : enumTree.Searchable [] := ⟨rfl, rfl⟩

theorem read_enum : read enumTree (.ofString "E.java") = .ok "enum E {}".toList := by
  have leads : enumTree.locate .follow (.ofString "E.java") = .ok [utf8 "E.java"] := by
    rw [FileTree.locate_of_fits (by decide)]
    exact FileTree.walk_last enumTree_searchable (by decide) rfl (by simp)
  have text : enumTree.readText (.ofString "E.java") = .ok "enum E {}".toList :=
    FileTree.readText_eq_ok_iff.2 ⟨_, leads, rfl, _, rfl, by decide⟩
  rw [read, text]
  rfl

theorem siblings_enum :
    siblings enumTree (.ofString "E.java") = .ok [(.ofString "./B.java", "class B {}".toList)] := by
  have leads : enumTree.locate .follow (.ofString ".") = .ok [] := by
    rw [FileTree.locate_of_fits (by decide)]
    exact FileTree.walk_idles enumTree_searchable (by decide)
  have leads' : enumTree.locate .follow (.ofString "./B.java") = .ok [utf8 "B.java"] := by
    rw [FileTree.locate_of_fits (by decide)]
    exact (FileTree.walk_idle enumTree_searchable rfl).trans
      (FileTree.walk_last enumTree_searchable (by decide) rfl (by simp))
  have dir : directory? (.ofString "E.java") = some (.ofString ".") := by decide
  have listed : enumTree.list (.ofString ".") = .ok (enumTree.entriesAt []) :=
    FileTree.list_eq_ok_iff.2 ⟨_, leads, rfl, rfl, rfl⟩
  have others : ((enumTree.entriesAt []).filter fun e =>
      ((Path.ofString ".").join e.1).hasExtension sourceExtension &&
        (Path.ofString "E.java").fileName? ≠ some e.1) =
      [(utf8 "B.java", .file "class B {}".toUTF8)] := rfl
  have text : enumTree.readText (.ofString "./B.java") = .ok "class B {}".toList :=
    FileTree.readText_eq_ok_iff.2 ⟨_, leads', rfl, _, rfl, by decide⟩
  have spelled : (Path.ofString ".").join (utf8 "B.java") = .ofString "./B.java" := by decide
  simp only [siblings, dir, listed]
  rw [others, List.mergeSort_singleton, List.filterMap_cons, spelled, text]
  rfl

/-- A file in a directory that must not be listed can still be read. -/
theorem read_shut : read enumTree (.ofString "src/A.java") = .ok "class A {}".toList := by
  have leads : enumTree.locate .follow (.ofString "src/A.java") =
      .ok [utf8 "src", utf8 "A.java"] := by
    rw [FileTree.locate_of_fits (by decide)]
    exact (FileTree.walk_enter enumTree_searchable (by decide) rfl).trans
      (FileTree.walk_last ⟨rfl, rfl⟩ (by decide) rfl (by simp))
  have text : enumTree.readText (.ofString "src/A.java") = .ok "class A {}".toList :=
    FileTree.readText_eq_ok_iff.2 ⟨_, leads, rfl, _, rfl, by decide⟩
  rw [read, text]
  rfl

theorem siblings_shut : siblings enumTree (.ofString "src/A.java") =
    .error (.unreadable (.ofString "src") (.refused "Permission denied (os error 13)")) := by
  have leads : enumTree.locate .follow (.ofString "src") = .ok [utf8 "src"] := by
    rw [FileTree.locate_of_fits (by decide)]
    exact FileTree.walk_last enumTree_searchable (by decide) rfl (by simp)
  have dir : directory? (.ofString "src/A.java") = some (.ofString "src") := by decide
  have closed : enumTree.list (.ofString "src") =
      .error (.refused "Permission denied (os error 13)") := by
    rw [FileTree.list, leads]
    rfl
  simp only [siblings, dir, closed]

/-- An enumeration has no instability though it has all other readings, a class in a directory that
must not be listed has no coupling, and the root has no reading. -/
theorem enum_keeps_its_readings :
    let b := bundle enumTree .epoch (.ofString "E.java")
    let shut := bundle enumTree .epoch (.ofString "src/A.java")
    (OwnReadings b "enum E {}".toList ∧ b.afferentCoupling = .value 0 ∧
      b.instability = .unavailable "no class or interface declared in E.java") ∧
    (OwnReadings shut "class A {}".toList ∧
      shut.afferentCoupling = .unavailable "cannot read src: Permission denied (os error 13)" ∧
      shut.instability = .unavailable "cannot read src: Permission denied (os error 13)") ∧
    ∃ cause, (bundle enumTree .epoch (.ofString "/")).reasons =
      List.replicate 8 (some (MetricError.unreadable (.ofString "/") cause).message) := by
  intro b shut
  obtain ⟨-, reads, -⟩ := failures_stay_apart enumTree .epoch (.ofString "E.java")
  obtain ⟨-, reads', -⟩ := failures_stay_apart enumTree .epoch (.ofString "src/A.java")
  obtain ⟨own, -, -, coupling, -⟩ := reads _ read_enum
  obtain ⟨own', -, -, -, fails⟩ := reads' _ read_shut
  have readings := coupling _ siblings_enum
  have unanchored : ¬ Instability.Anchored "enum E {}".toList := by
    unfold Instability.Anchored
    decide +kernel
  obtain ⟨cause, unread⟩ := enumTree.readText_of_parent?_eq_none (p := .ofString "/") (by decide)
  have none : Afferent.coupling "enum E {}".toList ["class B {}".toList] = 0 := by decide +kernel
  refine ⟨⟨own, ?_, readings.unanchored unanchored⟩, ⟨own', fails _ siblings_shut⟩, cause, ?_⟩
  · exact readings.afferent.trans (congrArg Reading.value none)
  · obtain ⟨cause', same, reasons⟩ := (failures_stay_apart enumTree .epoch (.ofString "/")).1
      (.unreadable (.ofString "/") cause) (by rw [read, unread]; rfl)
    exact reasons

end Workspace

end CodeGauge
