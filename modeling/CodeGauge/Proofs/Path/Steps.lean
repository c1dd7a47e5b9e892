import Mathlib.Data.List.Induction
import CodeGauge.Proofs.Path
import CodeGauge.Workspace.Sources

/-!
# The steps of a path

The steps of a path are its segments without those that say nothing. Of a path that ends in a step,
the directory as it is spelled has all steps but the last one (`EndsIn.exists_directory`), a name
that is added to the directory is one more step (`steps_join`), and the absolute path has the steps
of the working directory before its own (`EndsIn.absolute`).
-/

namespace CodeGauge

namespace Path

variable {p : Path} {n : Bytes} {t : Bytes} {segs : List Bytes}

/-- The segments of a path that say something. -/
def steps (t : Bytes) : List Bytes := (segments t).filter (!isIdle ·)

/-- Whether the last segment of a path says something and is the given one. -/
structure EndsIn (p : Path) (n : Bytes) : Prop where
  last : (segments p.bytes).getLast? = some n
  visible : isIdle n = false

instance (p : Path) (n : Bytes) : Decidable (EndsIn p n) :=
  decidable_of_iff ((segments p.bytes).getLast? = some n ∧ isIdle n = false) ⟨fun h => ⟨h.1, h.2⟩,
    fun h => ⟨h.1, h.2⟩⟩

theorem EndsIn.spelled (h : p.EndsIn n) : p.bytes ≠ [] := by
  intro none
  obtain ⟨last, visible⟩ := h
  rw [none] at last
  obtain rfl : [] = n := Option.some.inj last
  simp [isIdle] at visible

theorem segments_slash (t : Bytes) : segments (sep :: t) = [] :: segments t :=
  Text.splitWhere_sep (by decide) t

theorem segments_append_slash (t u : Bytes) : segments (t ++ sep :: u) = segments t ++ segments u :=
  Text.splitWhere_append_sep (by decide) t u

theorem segments_of_noSlash (noSlash : sep ∉ t) : segments t = [t] :=
  Text.splitWhere_of_forall_not fun _ there => beq_false_of_ne fun same => noSlash (same ▸ there)

/-- A character other than a slash belongs to the first segment. -/
theorem segments_cons {c : UInt8} (other : c ≠ sep) (t : Bytes) :
    ∃ first more, segments t = first :: more ∧ segments (c :: t) = (c :: first) :: more := by
  obtain ⟨first, more, split⟩ := List.exists_cons_of_ne_nil (Text.splitWhere_ne_nil (· == sep) t)
  refine ⟨first, more, split, ?_⟩
  rw [segments, Text.splitWhere_other (by simpa using other), split]
  rfl

theorem slash_not_mem_of_mem_segments {segment : Bytes} (h : segment ∈ segments t) :
    sep ∉ segment := by
  induction t generalizing segment with
  | nil =>
    rw [List.mem_singleton.1 h]
    simp
  | cons c t ih =>
    by_cases slash : c = sep
    · rw [slash, segments_slash] at h
      rcases List.mem_cons.1 h with rfl | h
      · simp
      · exact ih h
    · obtain ⟨first, more, split, whole⟩ := segments_cons slash t
      rw [whole] at h
      rw [split] at ih
      rcases List.mem_cons.1 h with rfl | h
      · simpa [Ne.symm slash] using ih List.mem_cons_self
      · exact ih (List.mem_cons_of_mem _ h)

theorem exists_mem_segments {c : UInt8} (other : c ≠ sep) : (∃ s ∈ segments t, c ∈ s) ↔ c ∈ t := by
  induction t with
  | nil => simp [segments, Text.splitWhere]
  | cons d t ih =>
    by_cases slash : d = sep
    · rw [slash, segments_slash]
      simpa [other] using ih
    · obtain ⟨first, more, split, whole⟩ := segments_cons slash t
      rw [split] at ih
      simp only [List.mem_cons, exists_eq_or_imp] at ih
      simp only [whole, List.mem_cons, exists_eq_or_imp, or_assoc, ih]

theorem segments_join_of_noSlash (some_segment : segs ≠ []) (noSlash : ∀ s ∈ segs, sep ∉ s) :
    segments (Text.join [sep] segs) = segs :=
  Text.splitWhere_join rfl some_segment fun s there _ char =>
    beq_false_of_ne fun same => noSlash s there (same ▸ char)

/-! ## Steps of spellings -/

theorem steps_slash (t : Bytes) : steps (sep :: t) = steps t := by
  rw [steps, segments_slash]
  rfl

theorem steps_here (t : Bytes) : steps (dot :: sep :: t) = steps t := by
  have split := segments_append_slash [dot] t
  rw [List.singleton_append] at split
  rw [steps, split]
  rfl

theorem steps_join_segments (noSlash : ∀ s ∈ segs, sep ∉ s) :
    steps (Text.join [sep] segs) = segs.filter (!isIdle ·) := by
  cases segs with
  | nil => rfl
  | cons s segs => rw [steps, segments_join_of_noSlash (by simp) noSlash]

theorem dropIdleEnd_concat (visible : isIdle n = false) :
    dropIdleEnd (segs ++ [n]) = segs ++ [n] := by
  simp [dropIdleEnd, visible]

theorem start_dropIdleEnd (segs : List Bytes) : dropIdleEnd segs <+: segs := by
  rw [dropIdleEnd, ← List.reverse_suffix, List.reverse_reverse]
  exact List.dropWhile_suffix isIdle

theorem visible_dropIdleEnd (segs : List Bytes) :
    ∀ s ∈ (dropIdleEnd segs).getLast?, isIdle s = false := by
  intro s last
  rw [dropIdleEnd, List.getLast?_reverse] at last
  have first := List.head?_dropWhile_not isIdle segs.reverse
  rw [last] at first
  simpa using first

theorem filter_dropIdleEnd (segs : List Bytes) :
    (dropIdleEnd segs).filter (!isIdle ·) = segs.filter (!isIdle ·) := by
  induction segs using List.reverseRecOn with
  | nil => rfl
  | append_singleton segs segment ih =>
    by_cases idle : isIdle segment
    · have shorter : dropIdleEnd (segs ++ [segment]) = dropIdleEnd segs := by
        simp [dropIdleEnd, idle]
      rw [shorter, ih, List.filter_append]
      simp [idle]
    · rw [dropIdleEnd_concat (by simpa using idle)]

/-- A character that belongs to what a path says stands in one of its steps. -/
theorem exists_mem_steps {c : UInt8} (noSep : c ≠ sep) (noDot : c ≠ dot) :
    (∃ s ∈ steps t, c ∈ s) ↔ c ∈ t := by
  rw [← exists_mem_segments noSep]
  refine exists_congr fun s => ?_
  have speaks (there : c ∈ s) : isIdle s = false := by
    by_contra idle
    have none : s = [] ∨ s = [dot] := by simpa [isIdle, or_iff_not_imp_left] using idle
    rcases none with rfl | rfl <;> simp [noDot] at there
  simp only [steps, List.mem_filter]
  exact ⟨fun h => ⟨h.1.1, h.2⟩, fun h => ⟨⟨h.1, by simp [speaks h.2]⟩, h.2⟩⟩

/-! ## The directory as it is spelled -/

theorem splitLead_other (root : ∀ rest, t ≠ sep :: rest) (here : ∀ rest, t ≠ dot :: sep :: rest)
    (alone : t ≠ [dot]) : splitLead t = ([], t) := by
  have notRoot : t.head? ≠ some sep := by simpa [List.head?_eq_some_iff] using root
  have notHere : ¬ (t = [dot] ∨ [dot, sep].isPrefixOf t = true) := by
    rintro (same | start)
    · exact alone same
    · obtain ⟨rest, same⟩ := List.isPrefixOf_iff_prefix.1 start
      exact here rest same.symm
  rw [splitLead, if_neg notRoot, if_neg notHere]

theorem parent?_slash {rest : Bytes} (split : segments rest = segs ++ [n])
    (visible : isIdle n = false) :
    parent? ⟨sep :: rest⟩ = some ⟨sep :: Text.join [sep] (dropIdleEnd segs)⟩ := by
  have lead : splitLead (sep :: rest) = ([sep], rest) := rfl
  simp [parent?, lead, split, dropIdleEnd_concat visible]

theorem parent?_here {rest : Bytes} (split : segments rest = segs ++ [n])
    (visible : isIdle n = false) :
    parent? ⟨dot :: sep :: rest⟩ = some ⟨dot :: Text.join [sep] (dropIdleEnd ([] :: segs))⟩ := by
  have lead : splitLead (dot :: sep :: rest) = ([dot], sep :: rest) := by
    have other : dot ≠ sep := by decide
    rw [splitLead, if_neg (by simp [other]), if_pos (.inr (by simp))]
    rfl
  have whole : segments (sep :: rest) = ([] :: segs) ++ [n] := by rw [segments_slash, split]; rfl
  simp only [parent?, lead, whole, dropIdleEnd_concat visible]
  simp

theorem parent?_other (root : ∀ rest, t ≠ sep :: rest) (here : ∀ rest, t ≠ dot :: sep :: rest)
    (split : segments t = segs ++ [n]) (visible : isIdle n = false) :
    parent? ⟨t⟩ = some ⟨Text.join [sep] (dropIdleEnd segs)⟩ := by
  have alone : t ≠ [dot] := by
    rintro rfl
    have last := congrArg List.getLast? split
    rw [List.getLast?_concat] at last
    obtain rfl : [dot] = n := Option.some.inj last
    simp [isIdle] at visible
  simp only [parent?, splitLead_other root here alone, split, dropIdleEnd_concat visible]
  simp

/-- What the directory of a path is, as far as its steps go. -/
structure DirectoryOf (p : Path) (n : Bytes) (dir : Path) : Prop where
  spelled : dir.bytes ≠ []
  absolute : dir.isAbsolute = p.isAbsolute
  steps : steps p.bytes = steps dir.bytes ++ [n]

theorem steps_concat (split : segments t = segs ++ [n]) (visible : isIdle n = false) :
    steps t = segs.filter (!isIdle ·) ++ [n] := by
  rw [steps, split, List.filter_append]
  simp [visible]

theorem noSlash_dropIdleEnd (split : segments t = segs ++ [n]) :
    ∀ s ∈ dropIdleEnd segs, sep ∉ s := by
  intro s there
  refine slash_not_mem_of_mem_segments (t := t) ?_
  rw [split]
  exact List.mem_append_left _ ((start_dropIdleEnd segs).subset there)

section Directories

variable (visible : isIdle n = false)
include visible

theorem directoryOf_slash {rest : Bytes} (split : segments rest = segs ++ [n]) :
    DirectoryOf ⟨sep :: rest⟩ n ⟨sep :: Text.join [sep] (dropIdleEnd segs)⟩ := by
  refine ⟨by simp, rfl, ?_⟩
  rw [steps_slash, steps_slash, steps_concat split visible,
    steps_join_segments (noSlash_dropIdleEnd split), filter_dropIdleEnd]

theorem directoryOf_here {rest : Bytes} (split : segments rest = segs ++ [n]) :
    DirectoryOf ⟨dot :: sep :: rest⟩ n ⟨dot :: Text.join [sep] (dropIdleEnd ([] :: segs))⟩ := by
  refine ⟨by simp, rfl, ?_⟩
  have whole : segments (sep :: rest) = ([] :: segs) ++ [n] := by rw [segments_slash, split]; rfl
  have noSlash := noSlash_dropIdleEnd whole
  have same : (dropIdleEnd ([] :: segs)).filter (!isIdle ·) = segs.filter (!isIdle ·) :=
    filter_dropIdleEnd _
  have left : dropIdleEnd ([] :: segs) <+: [] :: segs := start_dropIdleEnd _
  rw [steps_here, steps_concat split visible, ← same]
  congr 1
  generalize dropIdleEnd ([] :: segs) = ends at noSlash left
  -- Nothing is left of the directory but the dot, or a slash follows it.
  rcases ends with _ | ⟨first, _ | ⟨next, ends⟩⟩
  · rfl
  · obtain ⟨rfl, -⟩ := List.cons_prefix_cons.1 left
    rfl
  · obtain ⟨rfl, -⟩ := List.cons_prefix_cons.1 left
    rw [Text.join_cons_cons, List.nil_append, List.singleton_append, steps_here,
      steps_join_segments fun s there => noSlash s (List.mem_cons_of_mem _ there)]
    rfl

theorem directoryOf_other (root : ∀ rest, t ≠ sep :: rest) (split : segments t = segs ++ [n]) :
    ∃ dir, (if (Text.join [sep] (dropIdleEnd segs)).isEmpty then some (ofString ".")
      else some ⟨Text.join [sep] (dropIdleEnd segs)⟩) = some dir ∧ DirectoryOf ⟨t⟩ n dir := by
  have relative : (Path.mk t).isAbsolute = false := by
    simpa [isAbsolute, List.head?_eq_some_iff] using root
  have spelled := steps_join_segments (noSlash_dropIdleEnd split)
  rw [filter_dropIdleEnd] at spelled
  split
  next empty =>
    rw [List.isEmpty_iff.1 empty] at spelled
    refine ⟨_, rfl, by decide, relative.symm, ?_⟩
    rw [steps_concat split visible, ← spelled]
    rfl
  next some_char =>
    refine ⟨_, rfl, by simpa using some_char, ?_, by rw [steps_concat split visible, spelled]⟩
    rw [relative]
    -- The first segment is that of the path, which does not start with a slash.
    cases t with
    | nil =>
      have last := congrArg List.getLast? split
      rw [List.getLast?_concat] at last
      obtain rfl : [] = n := Option.some.inj last
      simp [isIdle] at visible
    | cons c t =>
      have other : c ≠ sep := fun same => root t (by rw [same])
      obtain ⟨first, more, -, whole⟩ := segments_cons other t
      have left := (start_dropIdleEnd segs).trans (List.prefix_append segs [n])
      rw [← split, whole] at left
      rcases ends : dropIdleEnd segs with _ | ⟨s, rest⟩
      · simp [ends, Text.join] at some_char
      · rw [ends] at left
        obtain ⟨rfl, -⟩ := List.cons_prefix_cons.1 left
        cases rest with
        | nil => simpa [isAbsolute, Text.join] using other
        | cons s' rest =>
          rw [Text.join_cons_cons]
          simpa [isAbsolute] using other

end Directories

/-- A path that ends in a step has a directory, with all steps but this one. -/
theorem EndsIn.exists_directory (h : p.EndsIn n) :
    ∃ dir, Workspace.directory? p = some dir ∧ DirectoryOf p n dir := by
  obtain ⟨text⟩ := p
  obtain ⟨last, visible⟩ := h
  have some_segment (u : Bytes) : segments u ≠ [] := Text.splitWhere_ne_nil _ u
  by_cases root : ∃ rest, text = sep :: rest
  · obtain ⟨rest, rfl⟩ := root
    rw [segments_slash, List.getLast?_cons_of_ne_nil (some_segment rest)] at last
    obtain ⟨segs, split⟩ := List.getLast?_eq_some_iff.1 last
    refine ⟨_, ?_, directoryOf_slash visible split⟩
    rw [Workspace.directory?, parent?_slash split visible]
    rfl
  by_cases here : ∃ rest, text = dot :: sep :: rest
  · obtain ⟨rest, rfl⟩ := here
    have whole : segments (dot :: sep :: rest) = [dot] :: segments rest :=
      segments_append_slash [dot] rest
    rw [whole, List.getLast?_cons_of_ne_nil (some_segment rest)] at last
    obtain ⟨segs, split⟩ := List.getLast?_eq_some_iff.1 last
    refine ⟨_, ?_, directoryOf_here visible split⟩
    rw [Workspace.directory?, parent?_here split visible]
    rfl
  · obtain ⟨segs, split⟩ := List.getLast?_eq_some_iff.1 last
    obtain ⟨dir, same, spelled⟩ := directoryOf_other visible (not_exists.1 root) split
    refine ⟨dir, ?_, spelled⟩
    rw [Workspace.directory?, parent?_other (not_exists.1 root) (not_exists.1 here) split visible,
      ← same]
    simp only [Option.map_some]
    split <;> rfl

/-- The directory of an absolute path is the root or ends in a step. -/
theorem EndsIn.directory_of_absolute {dir : Path} (h : p.EndsIn n) (rooted : p.isAbsolute = true)
    (found : Workspace.directory? p = some dir) : dir = ofString "/" ∨ ∃ m, dir.EndsIn m := by
  obtain ⟨text⟩ := p
  obtain ⟨last, visible⟩ := h
  obtain ⟨rest, rfl⟩ : ∃ rest, text = sep :: rest := by
    simpa [isAbsolute, List.head?_eq_some_iff] using rooted
  have some_segment : segments rest ≠ [] := Text.splitWhere_ne_nil _ rest
  rw [segments_slash, List.getLast?_cons_of_ne_nil some_segment] at last
  obtain ⟨segs, split⟩ := List.getLast?_eq_some_iff.1 last
  rw [Workspace.directory?, parent?_slash split visible] at found
  obtain rfl := Option.some.inj found
  have noSlash := noSlash_dropIdleEnd split
  have ends := visible_dropIdleEnd segs
  generalize dropIdleEnd segs = core at noSlash ends
  rcases List.eq_nil_or_concat' core with rfl | ⟨front, m, rfl⟩
  · exact .inl rfl
  · refine .inr ⟨m, ?_, ends m (by simp)⟩
    have parts : segments (sep :: Text.join [sep] (front ++ [m])) = [] :: (front ++ [m]) := by
      rw [segments_slash, segments_join_of_noSlash (by simp) noSlash]
    exact (congrArg _ parts).trans (List.getLast?_concat (l := [] :: front))

/-- The directory of the path of a location is that of the location above. -/
theorem directory?_pathOf {loc : Location} (named : ∀ m ∈ loc ++ [n], FileTree.isName m = true) :
    Workspace.directory? (FileTree.pathOf (loc ++ [n])) = some (FileTree.pathOf loc) := by
  have visible : ∀ m ∈ loc ++ [n], isIdle m = false := fun m there => by
    have := named m there
    simp_all [FileTree.isName]
  have split := Path.segments_join (by simp) named
  have whole : dropIdleEnd loc = loc := by
    rcases List.eq_nil_or_concat' loc with rfl | ⟨front, m, rfl⟩
    · rfl
    · exact dropIdleEnd_concat (visible m (by simp))
  have parent := parent?_slash split (visible n (by simp))
  rw [whole] at parent
  rw [Workspace.directory?, FileTree.pathOf, parent]
  rfl

/-! ## Names that are added -/

theorem segments_join_name (spelled : p.bytes ≠ []) (noSlash : sep ∉ n) :
    ∃ before, segments (p.join n).bytes = before ++ [n] ∧
      (segments p.bytes = before ∨ segments p.bytes = before ++ [[]]) := by
  rw [join, if_neg (by simpa using spelled)]
  split
  next slash =>
    obtain ⟨u, same⟩ := List.getLast?_eq_some_iff.1 slash
    refine ⟨segments u, ?_, .inr ?_⟩
    · rw [same, List.append_assoc]
      exact (segments_append_slash u n).trans (by rw [segments_of_noSlash noSlash])
    · rw [same]
      exact segments_append_slash u []
  next =>
    exact ⟨segments p.bytes,
      (segments_append_slash p.bytes n).trans (by rw [segments_of_noSlash noSlash]), .inl rfl⟩

theorem endsIn_join (spelled : p.bytes ≠ []) (noSlash : sep ∉ n) (visible : isIdle n = false) :
    (p.join n).EndsIn n := by
  obtain ⟨before, split, -⟩ := segments_join_name spelled noSlash
  exact ⟨by rw [split, List.getLast?_concat], visible⟩

theorem steps_join (spelled : p.bytes ≠ []) (noSlash : sep ∉ n) (visible : isIdle n = false) :
    steps (p.join n).bytes = steps p.bytes ++ [n] := by
  obtain ⟨before, split, same⟩ := segments_join_name spelled noSlash
  rw [steps_concat split visible]
  rcases same with same | same
  · rw [steps, same]
  · rw [steps, same, List.filter_append]
    simp [isIdle]

theorem isAbsolute_join (spelled : p.bytes ≠ []) (n : Bytes) :
    (p.join n).isAbsolute = p.isAbsolute := by
  rw [join, if_neg (by simpa using spelled)]
  split <;> simp [isAbsolute, List.head?_append_of_ne_nil _ spelled]

/-- Names that are added to a path are as many more steps. -/
theorem steps_joinAll (spelled : p.bytes ≠ []) (names : List Bytes)
    (steps_names : ∀ s ∈ names, sep ∉ s ∧ isIdle s = false) :
    steps (p.joinAll names).bytes = steps p.bytes ++ names ∧
      (p.joinAll names).isAbsolute = p.isAbsolute ∧
      ∀ s ∈ names.getLast?, (p.joinAll names).EndsIn s := by
  induction names generalizing p with
  | nil => exact ⟨by simp [joinAll], rfl, by simp⟩
  | cons s names ih =>
    obtain ⟨noSlash, visible⟩ := steps_names s (by simp)
    obtain ⟨rest, absolute, last⟩ := ih (join_ne_nil spelled s) fun other there =>
      steps_names other (by simp [there])
    rw [steps_join spelled noSlash visible] at rest
    rw [isAbsolute_join spelled] at absolute
    refine ⟨by simpa [joinAll] using rest, absolute, fun s' ends => ?_⟩
    cases names with
    | nil =>
      obtain rfl : s = s' := by simpa using ends
      exact endsIn_join spelled noSlash visible
    | cons next names => exact last s' (by simpa using ends)

/-! ## Absolute paths -/

theorem noSlash_steps {s : Bytes} (h : s ∈ steps t) : sep ∉ s ∧ isIdle s = false := by
  obtain ⟨listed, visible⟩ := List.mem_filter.1 h
  exact ⟨slash_not_mem_of_mem_segments listed, by simpa using visible⟩

theorem component?_eq_some (visible : isIdle n = false) :
    component? n = some (if n = [dot, dot] then .up else .name n) := by
  rw [component?, if_neg (by simp [visible])]
  split <;> rfl

/-- The file name is the last step, unless that leads up. -/
theorem EndsIn.fileName?_eq (h : p.EndsIn n) :
    p.fileName? = if n = [dot, dot] then none else some n := by
  obtain ⟨last, visible⟩ := h
  obtain ⟨segs, split⟩ := List.getLast?_eq_some_iff.1 last
  have ends : p.components.getLast? = some (if n = [dot, dot] then .up else .name n) := by
    rw [components, split, List.filterMap_append,
      List.filterMap_cons_some (component?_eq_some visible), List.filterMap_nil,
      ← List.append_assoc, List.getLast?_concat]
  rw [fileName?, ends]
  by_cases up : n = [dot, dot] <;> simp [up]

/-- The components of a path other than its start are its steps. -/
theorem map_bytes_components (p : Path) :
    (p.components.filter fun c => c ≠ .here ∧ c ≠ .root).map Component.bytes = steps p.bytes := by
  have inner (segs : List Bytes) :
      ((segs.filterMap component?).filter fun c => c ≠ .here ∧ c ≠ .root).map
      Component.bytes = segs.filter (!isIdle ·) := by
    induction segs with
    | nil => rfl
    | cons s segs ih =>
      by_cases idle : isIdle s
      · have none : component? s = none := by rw [component?, if_pos idle]
        rw [List.filterMap_cons_none none, ih, List.filter_cons_of_neg (by simp [idle])]
      · have known := component?_eq_some (n := s) (by simpa using idle)
        rw [List.filterMap_cons_some known, List.filter_cons_of_pos (by split <;> simp),
          List.map_cons, ih, List.filter_cons_of_pos (by simp [idle])]
        split <;> simp_all [Component.bytes]
  have lead : ((if p.isAbsolute then [.root] else
      if (segments p.bytes).head? = some [dot] then [.here] else [] : List Component).filter
        fun c => c ≠ .here ∧ c ≠ .root) = [] := by
    split
    · rfl
    · split <;> rfl
  rw [components, List.filter_append, lead, List.nil_append, inner, steps]

/-- The absolute path has the steps of the path behind those of the working directory, if it starts
there. -/
theorem EndsIn.absolute (h : p.EndsIn n) (cwd : Path) (rooted : cwd.isAbsolute = true) :
    (absolute cwd p).EndsIn n ∧ (absolute cwd p).isAbsolute = true ∧
      steps (absolute cwd p).bytes = (if p.isAbsolute then [] else steps cwd.bytes) ++
        steps p.bytes := by
  have spelled : p.bytes.isEmpty = false := by simpa using h.spelled
  obtain ⟨last, visible⟩ := h
  obtain ⟨segs, split⟩ := List.getLast?_eq_some_iff.1 last
  have noEnd : p.bytes.getLast? ≠ some sep := by
    intro slash
    obtain ⟨u, same⟩ := List.getLast?_eq_some_iff.1 slash
    have ends : segments p.bytes = segments u ++ [[]] := same ▸ segments_append_slash u []
    rw [ends, List.getLast?_concat] at last
    obtain rfl := Option.some.inj last
    simp [isIdle] at visible
  have ends : (steps p.bytes).getLast? = some n := by
    rw [steps_concat split visible, List.getLast?_concat]
  have from_start (start : Path) (some_char : start.bytes ≠ []) :=
    steps_joinAll some_char (steps p.bytes) fun s there => noSlash_steps there
  simp only [Path.absolute, spelled, Bool.false_eq_true, if_false, map_bytes_components,
    noEnd, false_and]
  by_cases root : p.isAbsolute
  · simp only [root, if_true, List.nil_append]
    split
    · obtain ⟨same, absolute, last⟩ := from_start (ofString "//") (by decide)
      exact ⟨last n ends, absolute, same⟩
    · obtain ⟨same, absolute, last⟩ := from_start (ofString "/") (by decide)
      exact ⟨last n ends, absolute, same⟩
  · have some_char : cwd.bytes ≠ [] := by
      rintro none
      simp [isAbsolute, none] at rooted
    obtain ⟨same, absolute, last⟩ := from_start cwd some_char
    simp only [root, Bool.false_eq_true, if_false]
    exact ⟨last n ends, absolute.trans rooted, same⟩

end Path

end CodeGauge
