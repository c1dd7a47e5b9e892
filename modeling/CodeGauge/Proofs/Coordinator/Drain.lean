import CodeGauge.Proofs.Coordinator.Lane

/-!
# What is stored on the way to idleness

A session that settles stores the bundles of the computations that waited and of the timers that are
due, in this order (`Session.settle_cache`); until it is idle it stores those of all other timers as
well (`Session.waitIdle_cache`). Nothing is stored besides. For saves of files that were unknown
before, these are the files themselves, each once (`Session.saves_waitIdle_cache`).
-/

namespace CodeGauge

/-- Stores the bundles of some files as they are now, one after the other. -/
def World.storeAll (w : World) (s : Snapshot) (keys : List Path) : Snapshot :=
  keys.foldl (fun s key => Snapshot.store s key (w.measure key)) s

theorem World.storeAll_append (w : World) (s : Snapshot) (keys more : List Path) :
    w.storeAll s (keys ++ more) = w.storeAll (w.storeAll s keys) more := List.foldl_append

/-- Files that are not there yet are added in order. -/
theorem World.storeAll_of_apart (w : World) {s : Snapshot} {keys : List Path}
    (unknown : ∀ key ∈ keys, s.any (·.1.same key) = false)
    (apart : keys.Pairwise fun p q => p.same q = false) :
    w.storeAll s keys = s ++ keys.map fun key => (key, w.measure key) := by
  induction keys generalizing s with
  | nil => simp [storeAll]
  | cons key rest ih =>
    obtain ⟨others, apart⟩ := List.pairwise_cons.1 apart
    have added : Snapshot.store s key (w.measure key) = s ++ [(key, w.measure key)] := by
      rw [Snapshot.store, if_neg (by simp [unknown key List.mem_cons_self])]
    have further := ih (s := Snapshot.store s key (w.measure key)) (fun other there => by
      rw [Snapshot.any_store, unknown other (List.mem_cons_of_mem _ there), others other there]
      rfl) apart
    rw [added] at further
    simpa [storeAll, added] using further

namespace Coordinator

variable {c : Coordinator} {w : World}

/-- Computations that have not read yet store their files as they are now. -/
theorem completes_cache (sound : c.Sound) (up : c.shutDown = false) (jobs : List Job)
    (started : ∀ job ∈ jobs, job ∈ c.jobs) (unread : ∀ job ∈ jobs, job.result = none)
    (ordered : jobs.Pairwise fun i j => i.number < j.number) :
    (jobs.foldl (fun c job => c.complete w job.number) c).cache =
      w.storeAll c.cache (jobs.map (·.key)) := by
  induction jobs generalizing c with
  | nil => rfl
  | cons job rest ih =>
    obtain ⟨later, ordered⟩ := List.pairwise_cons.1 ordered
    have first := complete_of_mem sound (started job List.mem_cons_self) w
    rw [unread job List.mem_cons_self, Option.getD_none] at first
    have still : (c.leave job.number).shutDown = false := up
    have stored : (c.complete w job.number).cache =
        Snapshot.store c.cache job.key (w.measure job.key) := by
      rw [first, store_of_up still]
      rfl
    have left : (c.complete w job.number).Sound := by
      rw [first]
      exact (sound.leave _).store _ _
    have waiting : ∀ other ∈ rest, other ∈ (c.complete w job.number).jobs := by
      intro other there
      rw [complete_jobs, mem_leave_jobs]
      exact ⟨started other (List.mem_cons_of_mem _ there), Nat.ne_of_gt (later other there)⟩
    have further := ih left (by rw [complete_shutDown, up]) waiting
      (fun other there => unread other (List.mem_cons_of_mem _ there)) ordered
    rw [stored] at further
    exact further

theorem fire_cache (c : Coordinator) (key : Path) (generation : Nat) :
    (c.fire key generation).cache = c.cache := by
  unfold fire
  split_ifs <;> rfl

/-- A file without a bundle is not fresh, whatever the freshness window. -/
theorem save_of_unknown (up : c.shutDown = false) {path : Path}
    (source : path.hasExtension c.settings.extension = true)
    (unknown : Snapshot.lookup? c.cache (w.key path) = none) :
    c.save w path = (.scheduled, c.arm (w.key path) w.clock) := by
  have stale : c.isFresh (w.key path) w.wall = false := by simp [isFresh, unknown]
  simp [save, up, source, stale]

theorem saveAll_keeps (c : Coordinator) (w : World) (paths : List Path) :
    (c.saveAll w paths).2.cache = c.cache ∧ (c.saveAll w paths).2.jobs = c.jobs ∧
      (c.saveAll w paths).2.shutDown = c.shutDown := by
  induction paths generalizing c with
  | nil => exact ⟨rfl, rfl, rfl⟩
  | cons path rest ih => simpa [saveAll] using ih (c.save w path).2

/-- Saves of different sources without bundles or timers arm a timer for each of them. -/
theorem saveAll_timers (up : c.shutDown = false) {paths : List Path}
    (source : ∀ path ∈ paths, path.hasExtension c.settings.extension = true)
    (unknown : ∀ path ∈ paths, Snapshot.lookup? c.cache (w.key path) = none)
    (untimed : ∀ path ∈ paths, ∀ t ∈ c.timers, t.key.same (w.key path) = false)
    (apart : paths.Pairwise fun p q => (w.key p).same (w.key q) = false) :
    (c.saveAll w paths).2.timers.map (fun t => (t.key, t.due)) =
      c.timers.map (fun t => (t.key, t.due)) ++
        paths.map fun path => (w.key path, w.clock + c.settings.debounce) := by
  induction paths generalizing c with
  | nil => simp [saveAll]
  | cons path rest ih =>
    obtain ⟨others, apart⟩ := List.pairwise_cons.1 apart
    have saved := save_of_unknown up (source path List.mem_cons_self)
      (unknown path List.mem_cons_self)
    have kept : (c.cancel (w.key path)).timers = c.timers :=
      List.filter_eq_self.2 fun t there => by simp [untimed path List.mem_cons_self t there]
    have armed : (c.arm (w.key path) w.clock).timers =
        c.timers ++ [⟨w.key path, c.nextGeneration, w.clock + c.settings.debounce⟩] := by
      simp only [arm, kept]
    have further := ih (c := c.arm (w.key path) w.clock) up
      (fun p there => source p (List.mem_cons_of_mem _ there))
      (fun p there => unknown p (List.mem_cons_of_mem _ there))
      (fun p there t timer => by
        rw [armed, List.mem_append, List.mem_singleton] at timer
        rcases timer with old | rfl
        · exact untimed p (List.mem_cons_of_mem _ there) t old
        · exact others p there) apart
    simp only [saveAll, saved]
    rw [further, armed]
    simp [arm, cancel]

end Coordinator

namespace Session

variable {s : Session}

/-- The files of the computations that wait and of the timers that are due, in the order in which
they are measured when the session settles. -/
def pending (s : Session) : List Path :=
  s.coordinator.jobs.map (·.key) ++
    (s.coordinator.timers.filter (·.due ≤ s.world.clock)).map (·.key)

/-- The files of the timers that are not due. -/
def later (s : Session) : List Path :=
  (s.coordinator.timers.filter (s.world.clock < ·.due)).map (·.key)

theorem fireDue_jobs (sound : s.coordinator.Sound) :
    s.fireDue.coordinator.jobs.map (·.key) = s.pending :=
  Coordinator.fires_jobs _ (fun _ there => (List.mem_filter.1 there).1) (sound.apart.filter _)

/-- What a session stores when it settles. -/
theorem settle_cache (sound : s.coordinator.Sound) (unread : Unread s.coordinator)
    (up : s.coordinator.shutDown = false) (released : s.held = false) :
    s.settle.coordinator.cache = s.world.storeAll s.coordinator.cache s.pending := by
  have fired : s.fireDue.coordinator.Sound := (run_fireDue sound).sound sound
  have same : s.fireDue.coordinator.cache = s.coordinator.cache :=
    fireDue_induction (P := fun c => c.cache = s.coordinator.cache) rfl
      fun c key generation kept => (Coordinator.fire_cache c key generation).trans kept
  have still : s.fireDue.held = false := released
  have completes := Coordinator.completes_cache (w := s.world) fired
    ((fireDue_shutDown s).trans up) _ (fun _ there => there) (invariant_unread.fireDue unread)
    fired.ordered
  rw [same, fireDue_jobs sound] at completes
  unfold settle
  simp only [still, Bool.false_eq_true, if_false]
  exact completes

/-- After the last deadline no timer is left for later. -/
theorem pending_skipToLast (s : Session) :
    s.skipToLast.pending = s.coordinator.jobs.map (·.key) ++ s.coordinator.timers.map (·.key) := by
  have due : s.coordinator.timers.filter (·.due ≤ s.skipToLast.world.clock) =
      s.coordinator.timers :=
    List.filter_eq_self.2 fun t there => decide_eq_true (due_le_skipToLast there)
  exact congrArg (fun timers : List Timer => _ ++ timers.map (·.key)) due

theorem pending_settle (sound : s.coordinator.Sound) (released : s.held = false) :
    s.settle.pending = [] := by
  have early :
      (s.coordinator.timers.filter (s.world.clock < ·.due)).filter (·.due ≤ s.world.clock) =
        [] := by
    rw [List.filter_filter, List.filter_eq_nil_iff]
    intro t _
    simp
  rw [pending, settle_jobs released, settle_timers sound, settle_world, early]
  rfl

theorem later_settle (sound : s.coordinator.Sound) : s.settle.later = s.later := by
  rw [later, settle_timers sound, settle_world, List.filter_filter]
  simp [later]

/-- What a session stores until it is idle. -/
theorem waitIdle_cache (sound : s.coordinator.Sound) (unread : Unread s.coordinator)
    (up : s.coordinator.shutDown = false) :
    s.waitIdle.coordinator.cache = s.world.storeAll s.coordinator.cache (s.pending ++ s.later) := by
  let free : Session := { s with held := false }
  have settled : free.settle.coordinator.Sound := (run_settle (s := free) sound).sound sound
  have first := settle_cache (s := free) sound unread up rfl
  have second := settle_cache (s := free.settle.skipToLast) settled (invariant_unread.settle unread)
    ((settle_shutDown (s := free) sound).trans up) (settle_held free)
  have timers : free.settle.coordinator.timers.map (·.key) = s.later :=
    congrArg (List.map _) (settle_timers (s := free) sound)
  have world : free.settle.skipToLast.world.storeAll = s.world.storeAll := by
    show World.storeAll { free.settle.world with clock := _ } = _
    rw [settle_world]
    rfl
  rw [pending_skipToLast, settle_jobs rfl, List.map_nil, List.nil_append, timers, world] at second
  rw [World.storeAll_append]
  exact second.trans (congrArg (s.world.storeAll · s.later) first)

/-- A session that is let settle and then becomes idle stores what waits in it, and nothing else. -/
theorem drained_cache (sound : s.coordinator.Sound) (unread : Unread s.coordinator)
    (up : s.coordinator.shutDown = false) (released : s.held = false) :
    (s.settle.step .waitIdle).2.coordinator.cache =
      s.world.storeAll s.coordinator.cache (s.pending ++ s.later) := by
  have settled : s.settle.coordinator.Sound := (run_settle sound).sound sound
  have unread' : Unread s.settle.coordinator := invariant_unread.settle unread
  have up' : s.settle.coordinator.shutDown = false := (settle_shutDown sound).trans up
  have waits := run_waitIdle settled
  have still : s.settle.waitIdle.coordinator.shutDown = false :=
    (waits.shutDown_eq fun there => absurd (isOrder_waitIdleEvents _ _ there) (by decide)).trans up'
  -- Waiting ends with settling, which leaves nothing to be done.
  have nothingLeft : s.settle.waitIdle.pending = [] := by
    let free : Session := { s.settle with held := false }
    have again := (run_settle (s := free) settled).sound settled
    exact pending_settle (s := free.settle.skipToLast) again (settle_held free)
  have last := settle_cache (waits.sound settled) (invariant_unread.act unread' .waitIdle) still ?_
  · rw [nothingLeft] at last
    calc (s.settle.step .waitIdle).2.coordinator.cache
      _ = s.settle.waitIdle.coordinator.cache := last
      _ = s.settle.world.storeAll s.settle.coordinator.cache (s.settle.pending ++ s.settle.later) :=
        waitIdle_cache settled unread' up'
      _ = s.world.storeAll s.coordinator.cache (s.pending ++ s.later) := by
        rw [pending_settle sound released, later_settle sound, List.nil_append,
          World.storeAll_append, ← settle_cache sound unread up released, settle_world]
  · exact (settle_held _).trans (settle_held _)

/-- Timers with one deadline are all due, or all left for later. -/
theorem pending_append_later {due : Nat} (none_waits : s.coordinator.jobs = [])
    (together : ∀ t ∈ s.coordinator.timers, t.due = due) :
    s.pending ++ s.later = s.coordinator.timers.map (·.key) := by
  rw [pending, later, none_waits, List.map_nil, List.nil_append]
  rcases Nat.lt_or_ge s.world.clock due with late | early
  · rw [List.filter_eq_nil_iff.2, List.filter_eq_self.2]
    · rfl
    · intro t there
      simpa [together t there] using late
    · intro t there
      simpa [together t there] using late
  · rw [List.filter_eq_self.2, List.filter_eq_nil_iff.2]
    · simp
    · intro t there
      simpa [together t there] using early
    · intro t there
      simpa [together t there] using early

/-- If all that waits are timers with one deadline for files without bundles, these files are
added. -/
theorem drained_of_timers (sound : s.coordinator.Sound) (up : s.coordinator.shutDown = false)
    (released : s.held = false) (none_waits : s.coordinator.jobs = []) {due : Nat}
    (together : ∀ t ∈ s.coordinator.timers, t.due = due)
    (unknown : ∀ t ∈ s.coordinator.timers, s.coordinator.cache.any (·.1.same t.key) = false) :
    (s.settle.step .waitIdle).2.coordinator.cache =
      s.coordinator.cache ++ (s.coordinator.timers.map (·.key)).map fun key =>
        (key, s.world.measure key) := by
  have unread : Unread s.coordinator := by simp [Unread, none_waits]
  rw [drained_cache sound unread up released, pending_append_later none_waits together]
  exact s.world.storeAll_of_apart (by simpa using unknown) (List.pairwise_map.2 sound.apart)

/-- When a new coordinator has been told of different sources and has become idle, its cache has
these files in order, whatever the debounce and the freshness window. -/
theorem saves_waitIdle_cache (w : World) (settings : Settings) {paths : List Path}
    (source : ∀ path ∈ paths, path.hasExtension settings.extension = true)
    (apart : paths.Pairwise fun p q => (w.key p).same (w.key q) = false) :
    (((Session.new w settings).step (.saves paths)).2.step .waitIdle).2.coordinator.cache =
      (paths.map w.key).map fun key => (key, w.measure key) := by
  have sound : ((Coordinator.new settings).saveAll w paths).2.Sound :=
    (run_saveAll (Session.new w settings) paths).sound (sound_new w settings)
  obtain ⟨cache, jobs, up⟩ := Coordinator.saveAll_keeps (.new settings) w paths
  have timers := Coordinator.saveAll_timers (c := .new settings) rfl source (fun _ _ => rfl)
    (fun _ _ _ there => absurd there List.not_mem_nil) apart
  show ((Session.mk w ((Coordinator.new settings).saveAll w paths).2 false none).settle.step
    .waitIdle).2.coordinator.cache = _
  generalize ((Coordinator.new settings).saveAll w paths).2 = c at *
  have together : ∀ t ∈ c.timers, t.due = w.clock + settings.debounce := by
    intro t there
    have listed := List.mem_map_of_mem (f := fun t : Timer => (t.key, t.due)) there
    rw [timers] at listed
    obtain ⟨path, -, same⟩ := List.mem_map.1 listed
    exact (congrArg Prod.snd same).symm
  have keys : c.timers.map (·.key) = paths.map w.key := by
    simpa [Function.comp_def, Coordinator.new] using congrArg (List.map Prod.fst) timers
  rw [drained_of_timers sound up rfl jobs together (by simp [cache, Coordinator.new])]
  simp only [cache, keys, Coordinator.new, List.nil_append]

end Session

end CodeGauge
