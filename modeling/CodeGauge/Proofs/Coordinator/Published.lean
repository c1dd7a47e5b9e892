import CodeGauge.Proofs.Coordinator.Accounts
import CodeGauge.Proofs.Coordinator.Isolation
import CodeGauge.Proofs.Path.Keys

/-!
# Published paths

Whoever hears of a path asks for its bundle with that path, and the coordinator takes the key of it
once more. The timers, the computations and the published paths of a coordinator are keys along
every run (`Session.Run.keyed`), and a key is its own key, so the bundle is found.

* `Session.published_paths_are_found`: every path that was ever published is answered with the
  bundle that was stored last under it, and a bundle that was forced under one spelling of a path is
  found under all others. The empty path is no spelling of the working directory, see
  `empty_path_is_not_here`.
-/

namespace CodeGauge

theorem FileTree.isAbsolute_cwdPath (t : FileTree) : t.cwdPath.isAbsolute = true := rfl

namespace World

theorem isKey_key (w : World) (path : Path) : (w.key path).IsKey :=
  Path.isKey_absolute w.tree.isAbsolute_cwdPath path

theorem same_key {w : World} {k : Path} (h : k.IsKey) : (w.key k).same k = true :=
  h.same_absolute w.tree.isAbsolute_cwdPath

end World

/-! ## Keys along a run -/

namespace Coordinator

variable {c c' : Coordinator} {w : World} {e : Event}

/-- All paths that a coordinator works on, and those it has published, are keys. -/
structure Keyed (c : Coordinator) : Prop where
  timers : ∀ t ∈ c.timers, t.key.IsKey
  jobs : ∀ j ∈ c.jobs, j.key.IsKey
  published : ∀ k ∈ c.published, k.IsKey

theorem Keyed.new (settings : Settings) : (Coordinator.new settings).Keyed :=
  ⟨by simp [Coordinator.new], by simp [Coordinator.new], by simp [Coordinator.new]⟩

theorem Keyed.cancel (h : c.Keyed) (key : Path) : (c.cancel key).Keyed where
  timers t ht := h.timers t (mem_cancel_timers.1 ht).1
  jobs := h.jobs
  published := h.published

theorem Keyed.arm (h : c.Keyed) {key : Path} (isKey : key.IsKey) (clock : Nat) :
    (c.arm key clock).Keyed where
  timers t ht := by
    rcases mem_arm_timers.1 ht with ⟨old, -⟩ | rfl
    · exact h.timers t old
    · exact isKey
  jobs := h.jobs
  published := h.published

theorem Keyed.save (h : c.Keyed) (w : World) (path : Path) : (c.save w path).2.Keyed := by
  obtain ⟨-, e⟩ | ⟨-, e⟩ | ⟨-, e⟩ | ⟨-, e⟩ := save_cases c w path <;> rw [e]
  · exact h
  · exact h
  · exact ⟨h.timers, h.jobs, h.published⟩
  · exact h.arm (w.isKey_key path) w.clock

theorem Keyed.start (h : c.Keyed) {key : Path} (isKey : key.IsKey) (origin : JobOrigin) :
    (c.start key origin).Keyed where
  timers := h.timers
  jobs j hj := by
    rcases mem_start_jobs.1 hj with old | rfl
    · exact h.jobs j old
    · exact isKey
  published := h.published

theorem Keyed.readFiles (h : c.Keyed) (w : World) (number : Nat) :
    (c.readFiles w number).Keyed where
  timers := h.timers
  jobs j hj := by
    obtain ⟨old, there, rfl⟩ := List.mem_map.1 hj
    split
    · exact h.jobs old there
    · exact h.jobs old there
  published := h.published

theorem Keyed.finish (h : c.Keyed) (sound : c.Sound) {j : Job} (started : j ∈ c.jobs)
    {bundle : Bundle} (read : j.result = some bundle) : (c.finish j.number).Keyed := by
  rw [finish_of_mem sound started read]
  constructor
  · intro t ht
    rw [store_timers] at ht
    exact h.timers t ht
  · intro i hi
    rw [store_jobs] at hi
    exact h.jobs i (mem_leave_jobs.1 hi).1
  · intro k hk
    rw [store_published] at hk
    rcases List.mem_append.1 hk with old | new
    · exact h.published k old
    · split at new
      · simp at new
      · rw [List.mem_singleton.1 new]
        exact h.jobs j started

theorem Moves.keyed (move : Moves w c e c') (sound : c.Sound) (h : c.Keyed) : c'.Keyed := by
  cases move with
  | save path => exact h.save w path
  | force path => exact (h.cancel _).start (w.isKey_key path) _
  | refuse => exact h
  | fire t armed =>
    rw [fire_of_mem armed]
    exact (h.cancel _).start (h.timers t armed) _
  | read j => exact h.readFiles w j.number
  | finish j bundle started read => exact h.finish sound started read
  | shutdown => exact ⟨by simp [Coordinator.shutdown], h.jobs, h.published⟩

end Coordinator

namespace Session

variable {s t : Session} {log : List Event} {p q : Path}

theorem Run.keyed (run : Run s log t) (sound : s.coordinator.Sound) (h : s.coordinator.Keyed) :
    t.coordinator.Keyed := by
  induction run with
  | start => exact h
  | move before last ih =>
    obtain ⟨move, -⟩ | ⟨-, same⟩ := last.cases
    · exact move.keyed (before.sound sound) ih
    · rwa [same]

/-! ## Looking up -/

theorem get?_of_isKey {k : Path} (h : k.IsKey) (s : Session) :
    s.coordinator.get? s.world k = Snapshot.lookup? s.coordinator.cache k :=
  Snapshot.lookup?_congr (World.same_key h)

theorem stores_ne_nil_of_mem {k : Path} (there : k ∈ storedKeys log) : stores k log ≠ [] := by
  obtain ⟨e, he, stored⟩ := List.mem_filterMap.1 there
  unfold Event.storedKey? at stored
  split at stored
  next number key bundle =>
    obtain rfl := Option.some.inj stored
    exact List.ne_nil_of_mem (mem_stores.2 ⟨key, Path.same_self key, he⟩)
  next => simp at stored

/-- A path that was published is answered with the bundle that was stored last under it. -/
theorem Run.get?_published {world : World} {settings : Settings}
    (run : Run (Session.new world settings) log s) {k : Path}
    (there : k ∈ s.coordinator.published) :
    ∃ number bundle, (stores k log).getLast? = some (number, bundle) ∧
      s.coordinator.get? s.world k = some bundle := by
  have keyed := run.keyed (sound_new world settings) (.new settings)
  have stored : k ∈ storedKeys log := run.counted.published ▸ there
  obtain ⟨⟨number, bundle⟩, last⟩ := Option.ne_none_iff_exists'.1
    (mt List.getLast?_eq_none_iff.1 (stores_ne_nil_of_mem stored))
  refine ⟨number, bundle, last, ?_⟩
  rw [get?_of_isKey (keyed.published k there), run.lookup?_cache (sound_new world settings), last]
  rfl

theorem distinct_subset (paths : List Path) : distinct paths ⊆ paths := by
  induction paths using List.reverseRecOn with
  | nil => exact List.Subset.refl []
  | append_singleton paths path ih =>
    have old : distinct paths ⊆ paths ++ [path] := List.subset_append_of_subset_left _ ih
    unfold distinct at old ⊢
    rw [List.foldl_append, List.foldl_cons, List.foldl_nil]
    split
    · exact old
    · exact List.append_subset.2 ⟨old, List.subset_append_right _ _⟩

theorem mem_published_of_mem_updatesSince {k : Path} {seen : Nat}
    (h : k ∈ (s.updatesSince seen).paths) :
    k ∈ s.coordinator.published := by
  have listed := distinct_subset _ (List.mem_mergeSort.1 h)
  exact List.mem_of_mem_drop (List.mem_of_mem_drop listed)

theorem Moves.drained_eq {updates : Option Updates} (move : Moves s (.drained updates) t) :
    updates = s.subscription.map s.updatesSince := by
  cases move with
  | work move => cases move
  | drain => rfl

/-- What a subscriber hears of has been published. -/
theorem Run.mem_published_of_drained {world : World} {settings : Settings}
    (run : Run (Session.new world settings) log s) {u : Updates}
    (asked : .drained (some u) ∈ log) {k : Path}
    (h : k ∈ u.paths) : k ∈ s.coordinator.published := by
  obtain ⟨before, after, rfl⟩ := List.append_of_mem asked
  obtain ⟨t, first, second⟩ := run.split
  obtain ⟨t', move, -⟩ := second.uncons
  obtain ⟨seen, -, rfl⟩ := Option.map_eq_some_iff.1 move.drained_eq.symm
  have published := mem_published_of_mem_updatesSince h
  rw [first.counted.published] at published
  rw [run.counted.published]
  unfold storedKeys
  rw [List.filterMap_append]
  exact List.mem_append_left _ published

/-! ## Forced bundles -/

/-- A bundle that was forced is found under every path with the same key. -/
theorem get?_force (sound : s.coordinator.Sound) (up : s.coordinator.shutDown = false)
    (same : (s.world.key p).same (s.world.key q) = true) :
    (s.coordinator.force s.world q).2.get? s.world p = some (s.world.measure (s.world.key q)) := by
  have still : (((s.coordinator.cancel (s.world.key q)).start (s.world.key q) .forced).leave
      s.coordinator.nextJob).shutDown = false := up
  unfold Coordinator.get?
  rw [Coordinator.force_of_up sound up, Coordinator.store_of_up still]
  exact Snapshot.lookup?_store_of_same same

theorem steady_after (world : World) (settings : Settings) (key : Path) (steps : List Step) :
    Steady settings key ((Session.new world settings).after steps) := by
  induction steps using List.reverseRecOn with
  | nil => exact .new world settings key
  | append_singleton steps next ih =>
    rw [after_concat]
    exact ih.step _ next

/-- Between the steps of a session nothing else is stored for the file: its timer is cancelled by
the measurement, and if a computation waits, it is held. -/
theorem get?_step_force {settings : Settings} (steady : Steady settings (s.world.key p) s)
    (up : s.coordinator.shutDown = false) (same : (s.world.key q).same (s.world.key p) = true)
    (n : Nat) :
    Snapshot.lookup? (s.step (.force q (n + 1))).2.coordinator.cache (s.world.key p) =
      some (s.world.measure (s.world.key q)) := by
  let l := s.lane (s.world.key p)
  let forced : Lane := { l with timers := [], cached := some (s.world.measure (s.world.key q)) }
  have settled : forced.Settled := ⟨by simp [forced], steady.settled.jobs⟩
  have act : (l.act (s.world.key p) s.world.wall (.force q (n + 1))).2 = forced := by
    have same' : (l.key q).same (s.world.key p) = true := same
    show (if (l.key q).same (s.world.key p) then l.force s.world.wall q (n + 1)
        else ([], l)).2 = forced
    rw [if_pos same', Lane.force_of_up up]
    rfl
  have after : ((s.step (.force q (n + 1))).2.lane (s.world.key p)) = forced := by
    have does := congrArg Prod.snd
      (lane_step steady.sound steady.unread (s.world.key p) (.force q (n + 1)))
    refine Eq.trans does ?_
    show ((l.act (s.world.key p) s.world.wall (.force q (n + 1))).2.settle s.world.wall).2 = forced
    rw [act, settled.settle_eq]
  exact congrArg Lane.cached after

/-- What was published, or forced under another spelling, can be asked for. -/
structure Findable (log : List Event) (s : Session) : Prop where
  /-- A path that was published is answered with the bundle that was stored last under it. -/
  published : ∀ k ∈ s.coordinator.published, ∃ number bundle,
    (stores k log).getLast? = some (number, bundle) ∧ s.coordinator.get? s.world k = some bundle
  /-- What a subscriber hears of has been published. -/
  heard : ∀ u, .drained (some u) ∈ log → ∀ k ∈ u.paths, k ∈ s.coordinator.published
  /-- A measurement that is forced answers with its bundle, which is there under all spellings. -/
  forced : ∀ p q, Path.Respelled s.world.tree.cwdPath p q → (p.bytes = [] ↔ q.bytes = []) →
    s.coordinator.shutDown = false → ∃ bundle, (s.coordinator.force s.world q).1 = some bundle ∧
      (s.coordinator.force s.world q).2.get? s.world p = some bundle

theorem Run.findable {world : World} {settings : Settings}
    (run : Run (Session.new world settings) log s) : Findable log s where
  published _ there := run.get?_published there
  heard _ asked _ listed := run.mem_published_of_drained asked listed
  forced p q spelled empty up := by
    have same := (spelled.same_absolute_iff s.world.tree.isAbsolute_cwdPath).2 empty
    refine ⟨s.world.measure (s.world.key q), ?_,
      get?_force (run.sound (sound_new world settings)) up same⟩
    unfold Coordinator.force
    rw [if_neg (by simp [up])]

/-- A key is its own key, and spellings of a path have the same key, unless one is empty and the
other is not. So after every run and every session, published paths can be looked up, and so can a
forced bundle under all spellings of its path. -/
theorem published_paths_are_found (world : World) (settings : Settings) :
    (∀ p, (world.key (world.key p)).same (world.key p) = true) ∧
    (∀ p q, Path.Respelled world.tree.cwdPath p q →
      ((world.key p).same (world.key q) = true ↔ (p.bytes = [] ↔ q.bytes = []))) ∧
    (∀ log s, Run (Session.new world settings) log s → Findable log s) ∧
    ∀ steps, let s := (Session.new world settings).after steps
      Findable ((Session.new world settings).logs steps).flatten s ∧
      ∀ p q times, Path.Respelled s.world.tree.cwdPath p q → (p.bytes = [] ↔ q.bytes = []) →
        s.coordinator.shutDown = false → 0 < times →
          ∃ bundle, (s.step (.force q times)).1 = .bundle (some bundle) ∧
            ((s.step (.force q times)).2.step (.get p)).1 = .bundle (some bundle) := by
  refine ⟨fun p => World.same_key (world.isKey_key p), ?_, fun log s run => run.findable, ?_⟩
  · intro p q spelled
    exact spelled.same_absolute_iff world.tree.isAbsolute_cwdPath
  · intro steps s
    refine ⟨(run_after (sound_new world settings) steps).findable, ?_⟩
    intro p q times spelled empty up some_time
    obtain ⟨n, rfl⟩ := Nat.exists_eq_succ_of_ne_zero some_time.ne'
    have steady : Steady settings (s.world.key p) s := steady_after world settings _ steps
    have same := (spelled.symm.same_absolute_iff s.world.tree.isAbsolute_cwdPath).2 empty.symm
    refine ⟨s.world.measure (s.world.key q), ?_, ?_⟩
    · show Answer.bundle (s.forceTimes q (n + 1)).1 = _
      rw [forceTimes_fst, up]
      rfl
    · have found := get?_step_force steady up same n
      rw [← (run_step steady.sound (.force q (n + 1))).key_eq] at found
      exact congrArg Answer.bundle found

/-- A subscriber hears of a file whose timer has fired, and the file is forced under another
spelling. -/
theorem respelled_file_is_found :
    let start := Session.new .bare .default
    let steps : List Step := [.subscribe, .save (.ofString "A.java"), .advance 500, .updates]
    let s := start.after steps
    let p := Path.ofString "./A.java"
    let q := Path.ofString "//A.java"
    (Path.Respelled s.world.tree.cwdPath p q ∧ (p.bytes = [] ↔ q.bytes = []) ∧
      s.coordinator.shutDown = false ∧ s.coordinator.published = [.ofString "/A.java"]) ∧
    Findable (start.logs steps).flatten s ∧
      ∃ bundle, (s.step (.force q 2)).1 = .bundle (some bundle) ∧
        ((s.step (.force q 2)).2.step (.get p)).1 = .bundle (some bundle) := by
  intro start steps s p q
  have spelled : Path.Respelled s.world.tree.cwdPath p q :=
    .trans (.hereFirst (by decide)) (.symm (.inside (p := .ofString "A.java") (by decide)))
  have up : s.coordinator.shutDown = false := by decide
  have found := (published_paths_are_found .bare .default).2.2.2 steps
  exact ⟨⟨spelled, by decide, up, by decide⟩, found.1,
    found.2 p q 2 spelled (by decide) up (by decide)⟩

/-- Without its dot the spelling of the working directory is empty, and the empty path has a key of
its own: what is stored for `.` is not found under it. -/
theorem empty_path_is_not_here :
    let s := (Session.new .bare .default).after [.force (.ofString ".") 1]
    Path.Respelled s.world.tree.cwdPath (.ofString ".") ⟨[]⟩ ∧
      (s.coordinator.get? s.world (.ofString ".")).isSome = true ∧
      s.coordinator.get? s.world ⟨[]⟩ = none := by
  intro s
  have spelled : Path.Respelled s.world.tree.cwdPath (.ofString ".") ⟨[]⟩ :=
    .trans (.symm (.slashLast (t := [Path.dot]) (by simp))) (.hereFirst (by decide))
  exact ⟨spelled, by decide, by decide⟩

end Session

end CodeGauge
