import CodeGauge.Proofs.FileTree

/-!
# Walks in parts

A walk along two lists of segments is a walk along the first one and then, with the links that are
left, along the second one (`walk_append`). How many links may be followed makes no difference as
long as they are enough (`walk_more_links`). Segments that say nothing can be left out where others
follow, and at the end they ask for a directory in which names can be looked up (`walk_filter`,
`walk_filter_of_ok`, `walk_of_filter_ok`).
-/

namespace CodeGauge

namespace FileTree

variable {t : FileTree} {links : Nat} {loc target : Location} {segs : List Bytes}

theorem walk_link (links : Nat) (here : t.Searchable loc) {segment text : Bytes}
    (named : isName segment = true) (there : t.node? (loc ++ [segment]) = some (.link text))
    (rest : List Bytes) :
    t.walk .follow 0 loc (segment :: rest) = .error .linkLoop ∧
      t.walk .follow (links + 1) loc (segment :: rest) =
        t.walk .follow links (if (Path.mk text).isAbsolute then [] else loc)
          (Path.segments text ++ rest) := by
  have some_byte := ne_nil_of_isName named
  have parts : Path.isIdle segment = false ∧ segment ≠ [Path.dot, Path.dot] ∧
      segment.length ≤ maxNameBytes := by simp_all [isName]
  constructor <;> rw [walk] <;>
    simp [here.directory, here.allowed, some_byte, parts, there, Nat.not_lt.2 parts.2.2]

/-- What a walk does at a segment that is looked up: see `walk_cons`. -/
theorem walk_cons_of_searchable (searchable : t.Searchable loc) {segment : Bytes}
    (spelled : segment ≠ []) :
    (∃ cause, ∀ links rest, t.walk .follow links loc (segment :: rest) = .error cause) ∨
    (∃ next, ∀ links rest,
      t.walk .follow links loc (segment :: rest) = t.walk .follow links next rest) ∨
    ∃ next segs, (∀ rest, t.walk .follow 0 loc (segment :: rest) = .error .linkLoop) ∧
      ∀ links rest, t.walk .follow (links + 1) loc (segment :: rest) =
        t.walk .follow links next (segs ++ rest) := by
  obtain ⟨here, allowed⟩ := searchable
  by_cases idle : Path.isIdle segment
  · exact .inr (.inl ⟨loc, fun links rest => walk_idle ⟨here, allowed⟩ idle⟩)
  by_cases up : segment = [Path.dot, Path.dot]
  · exact .inr (.inl ⟨loc.dropLast, fun links rest => by rw [up, walk_up ⟨here, allowed⟩]⟩)
  by_cases long : maxNameBytes < segment.length
  · exact .inl ⟨.nameTooLong, fun links rest => by
      rw [walk]; simp [here, allowed, spelled, idle, up, long]⟩
  cases there : t.node? (loc ++ [segment]) with
  | none =>
    exact .inl ⟨.missing, fun links rest => by
      rw [walk]; simp [here, allowed, spelled, idle, up, long, there]⟩
  | some node =>
    cases node with
    | file | directory =>
      exact .inr (.inl ⟨loc ++ [segment], fun links rest => by
        rw [walk]; simp [here, allowed, spelled, idle, up, long, there]⟩)
    | link text =>
      refine .inr (.inr ⟨if (Path.mk text).isAbsolute then [] else loc, Path.segments text,
        fun rest => ?_, fun links rest => ?_⟩)
      all_goals rw [walk]; simp [here, allowed, spelled, idle, up, long, there]

/-- What a walk that follows all links does at its first segment: it fails, whatever comes next; or
it goes on elsewhere; or it comes to a link, and goes on with one link fewer if there is one
left. -/
theorem walk_cons (t : FileTree) (loc : Location) (segment : Bytes) :
    (∃ cause, ∀ links rest, t.walk .follow links loc (segment :: rest) = .error cause) ∨
    (∃ next, ∀ links rest,
      t.walk .follow links loc (segment :: rest) = t.walk .follow links next rest) ∨
    ∃ next segs, (∀ rest, t.walk .follow 0 loc (segment :: rest) = .error .linkLoop) ∧
      ∀ links rest, t.walk .follow (links + 1) loc (segment :: rest) =
        t.walk .follow links next (segs ++ rest) := by
  cases here : t.node? loc with
  | none => exact .inl ⟨.missing, fun links rest => by rw [walk, here]⟩
  | some node =>
    cases node with
    | file | link => exact .inl ⟨.notDirectory, fun links rest => by rw [walk, here]⟩
    | directory =>
      by_cases empty : segment = []
      · exact .inr (.inl ⟨loc, fun links rest => by rw [empty, walk_empty here]⟩)
      cases allowed : t.refusal? loc .search with
      | some wording => exact .inl ⟨.refused wording, fun _ _ => walk_refused here allowed empty⟩
      | none => exact walk_cons_of_searchable ⟨here, allowed⟩ empty

/-- A walk fails in its first part, or goes on behind it with the links that are left. -/
theorem walk_append (t : FileTree) (links : Nat) (loc : Location) (segs : List Bytes) :
    (∃ cause, ∀ more, t.walk .follow links loc (segs ++ more) = .error cause) ∨
    ∃ left target, ∀ more,
      t.walk .follow links loc (segs ++ more) = t.walk .follow left target more := by
  cases segs with
  | nil => exact .inr ⟨links, loc, fun more => rfl⟩
  | cons segment segs =>
    rcases t.walk_cons loc segment with ⟨cause, fails⟩ | ⟨next, goes⟩ |
      ⟨next, inserted, stops, follows⟩
    · exact .inl ⟨cause, fun more => fails links _⟩
    · simp only [List.cons_append, goes]
      exact walk_append t links next segs
    · cases links with
      | zero => exact .inl ⟨.linkLoop, fun more => stops _⟩
      | succ links =>
        simp only [List.cons_append, follows, ← List.append_assoc]
        exact walk_append t links next (inserted ++ segs)
termination_by (links, segs.length)

/-- Behind a part that leads somewhere, a walk goes on from there. -/
theorem walk_append_of_ok (h : t.walk .follow links loc segs = .ok target) :
    ∃ left, ∀ more, t.walk .follow links loc (segs ++ more) = t.walk .follow left target more := by
  rcases t.walk_append links loc segs with ⟨cause, fails⟩ | ⟨left, target', goes⟩
  · have := fails []
    rw [List.append_nil, h] at this
    contradiction
  · have same := goes []
    rw [List.append_nil, h, walk_nil] at same
    obtain rfl : target = target' := Except.ok.inj same
    exact ⟨left, goes⟩

/-- If a walk is not given up for its links, it comes to the same with more of them. -/
theorem walk_more_links (t : FileTree) (links more : Nat) (loc : Location) (segs : List Bytes)
    (enough : t.walk .follow links loc segs ≠ .error .linkLoop) :
    t.walk .follow (links + more) loc segs = t.walk .follow links loc segs := by
  cases segs with
  | nil => rw [walk_nil, walk_nil]
  | cons segment segs =>
    rcases t.walk_cons loc segment with ⟨cause, fails⟩ | ⟨next, goes⟩ |
      ⟨next, inserted, stops, follows⟩
    · rw [fails, fails]
    · rw [goes] at enough
      rw [goes, goes, walk_more_links t links more next segs enough]
    · cases links with
      | zero => exact absurd (stops segs) enough
      | succ links =>
        rw [follows] at enough
        rw [Nat.add_right_comm, follows, follows,
          walk_more_links t links more next (inserted ++ segs) enough]
termination_by (links, segs.length)

/-- Two walks that differ in the number of links come to the same if both are given up for their
links or neither is. -/
theorem walk_links_agree {left right : Nat}
    (agree : t.walk .follow left loc segs = .error .linkLoop ↔
      t.walk .follow right loc segs = .error .linkLoop) :
    t.walk .follow left loc segs = t.walk .follow right loc segs := by
  by_cases loops : t.walk .follow left loc segs = .error .linkLoop
  · rw [loops, agree.1 loops]
  · rcases Nat.le_total left right with le | le
    · obtain ⟨more, rfl⟩ := Nat.exists_eq_add_of_le le
      exact (walk_more_links t left more loc segs loops).symm
    · obtain ⟨more, rfl⟩ := Nat.exists_eq_add_of_le le
      exact walk_more_links t right more loc segs (mt agree.2 loops)

/-! ## Segments that say nothing -/

/-- A directory that refuses to look up names refuses every walk that goes on with one. -/
theorem walk_refused_of_mem (here : t.node? loc = some .directory) {wording : String}
    (refused : t.refusal? loc .search = some wording) {rest : List Bytes}
    (speaks : ∃ s ∈ rest, s ≠ []) :
    t.walk .follow links loc rest = .error (.refused wording) := by
  induction rest with
  | nil => simp at speaks
  | cons segment rest ih =>
    by_cases empty : segment = []
    · rw [empty, walk_empty here]
      exact ih (by simpa [empty] using speaks)
    · exact walk_refused here refused empty

/-- Before another segment that is looked up, one that says nothing can be left out. -/
theorem walk_drop_idle {segment : Bytes} (idle : Path.isIdle segment = true) {rest : List Bytes}
    (goes_on : ∃ s ∈ rest, s ≠ []) (segs : List Bytes) :
    t.walk .follow links loc (segs ++ segment :: rest) =
      t.walk .follow links loc (segs ++ rest) := by
  rcases t.walk_append links loc segs with ⟨cause, fails⟩ | ⟨left, target, goes⟩
  · rw [fails, fails]
  · rw [goes, goes]
    cases here : t.node? target with
    | some node =>
      cases node with
      | directory =>
        by_cases empty : segment = []
        · rw [empty, walk_empty here]
        · cases allowed : t.refusal? target .search with
          | none => exact walk_idle ⟨here, allowed⟩ idle
          | some wording =>
            rw [walk_refused here allowed empty, walk_refused_of_mem here allowed goes_on]
      | file | link =>
        obtain ⟨next, rest, rfl⟩ :=
          List.exists_cons_of_ne_nil (List.ne_nil_of_mem goes_on.choose_spec.1)
        rw [walk, walk, here]
    | none =>
      obtain ⟨next, rest, rfl⟩ :=
        List.exists_cons_of_ne_nil (List.ne_nil_of_mem goes_on.choose_spec.1)
      rw [walk, walk, here]

/-- Every list of segments has an end that says nothing. -/
theorem exists_idle_end (segs : List Bytes) :
    ∃ core idles, segs = core ++ idles ∧ (∀ n ∈ core.getLast?, Path.isIdle n = false) ∧
      ∀ n ∈ idles, Path.isIdle n = true := by
  induction segs using List.reverseRecOn with
  | nil => exact ⟨[], [], rfl, by simp, by simp⟩
  | append_singleton segs segment ih =>
    by_cases idle : Path.isIdle segment
    · obtain ⟨core, idles, rfl, ends, all⟩ := ih
      refine ⟨core, idles ++ [segment], by simp, ends, fun n there => ?_⟩
      rcases List.mem_append.1 there with there | there
      · exact all n there
      · rwa [List.mem_singleton.1 there]
    · exact ⟨segs ++ [segment], [], by simp, by simpa using idle, by simp⟩

/-- Where the last segment says something, the others that say nothing can be left out. -/
theorem walk_filter (t : FileTree) (links : Nat) (loc : Location) {rest : List Bytes}
    (ends : ∀ n ∈ rest.getLast?, Path.isIdle n = false)
    (segs : List Bytes) :
    t.walk .follow links loc (segs ++ rest) =
      t.walk .follow links loc (segs ++ rest.filter (!Path.isIdle ·)) := by
  induction rest generalizing segs with
  | nil => rfl
  | cons segment rest ih =>
    have later : ∀ n ∈ rest.getLast?, Path.isIdle n = false := by
      cases rest with
      | nil => simp
      | cons next rest => simpa using ends
    by_cases idle : Path.isIdle segment
    · have goes_on : ∃ s ∈ rest, s ≠ [] := by
        rcases List.eq_nil_or_concat' rest with rfl | ⟨front, n, rfl⟩
        · simp [idle] at ends
        · refine ⟨n, by simp, ?_⟩
          rintro rfl
          exact absurd (later [] (by simp)) (by simp [Path.isIdle])
      rw [walk_drop_idle idle goes_on, ih later, List.filter_cons_of_neg (by simp [idle])]
    · have further := ih later (segs ++ [segment])
      rw [List.filter_cons_of_pos (by simp [idle])]
      simpa using further

/-- What is reached along all segments is reached along those that say something. -/
theorem walk_filter_of_ok (reached : t.walk .follow links loc segs = .ok target) :
    t.walk .follow links loc (segs.filter (!Path.isIdle ·)) = .ok target := by
  obtain ⟨core, idles, parts, ends, idle⟩ := exists_idle_end segs
  have none_left : idles.filter (!Path.isIdle ·) = [] := by simpa using idle
  have whole := t.walk_filter links loc ends []
  rw [List.nil_append, List.nil_append] at whole
  rw [parts, List.filter_append, none_left, List.append_nil, ← whole]
  rw [parts] at reached
  rcases t.walk_append links loc core with ⟨cause, fails⟩ | ⟨left, place, goes⟩
  · rw [fails] at reached
    contradiction
  · have alone := goes []
    rw [List.append_nil, walk_nil] at alone
    rw [goes] at reached
    rw [alone]
    -- The segments at the end are walked along where the others lead.
    cases idles with
    | nil => rwa [walk_nil] at reached
    | cons segment idles =>
      cases here : t.node? place with
      | none => simp [walk, here] at reached
      | some node =>
        cases node with
        | directory => rw [eq_of_walk_idles here idle reached]
        | file | link => simp [walk, here] at reached

/-- Where names can be looked up, the segments at the end that say nothing can be walked along
too. -/
theorem walk_of_filter_ok (searchable : t.Searchable target)
    (reached : t.walk .follow links loc (segs.filter (!Path.isIdle ·)) = .ok target) :
    t.walk .follow links loc segs = .ok target := by
  obtain ⟨core, idles, parts, ends, idle⟩ := exists_idle_end segs
  have none_left : idles.filter (!Path.isIdle ·) = [] := by simpa using idle
  have whole := t.walk_filter links loc ends []
  rw [List.nil_append, List.nil_append] at whole
  rw [parts, List.filter_append, none_left, List.append_nil, ← whole] at reached
  obtain ⟨left, goes⟩ := walk_append_of_ok reached
  rw [parts, goes]
  exact walk_idles searchable idle

end FileTree

end CodeGauge
