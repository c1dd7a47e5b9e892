import CodeGauge.Coordinator.Basic
import CodeGauge.Proofs.Snapshot

/-!
# Sound coordinators

What holds of a coordinator whatever it has done (`Coordinator.Sound`): a file has at most one
timer, computations carry the numbers that they got when they started, and after the shutdown there
are no timers. Each step keeps this, and in a sound coordinator a step can be said in plain words:

* `save_cases`: the four ways a save ends;
* `fire_of_mem`: a timer that is there leaves, and a computation starts;
* `finish_of_mem`: a computation that has read leaves, and its bundle is stored.
-/

namespace CodeGauge

namespace Coordinator

variable {c : Coordinator}

/-- What holds of every coordinator. -/
structure Sound (c : Coordinator) : Prop where
  /-- No two timers are for the same file. -/
  apart : c.timers.Pairwise fun t u => t.key.same u.key = false
  /-- Computations are numbered in the order in which they started. -/
  ordered : c.jobs.Pairwise fun i j => i.number < j.number
  /-- The numbers that were given out are below the next one. -/
  numbered : ∀ job ∈ c.jobs, job.number < c.nextJob
  /-- After the shutdown there are no timers. -/
  quiet : c.shutDown = true → c.timers = []

theorem Sound.new (settings : Settings) : (Coordinator.new settings).Sound :=
  ⟨.nil, .nil, by simp [Coordinator.new], fun _ => rfl⟩

/-! ## Timers -/

theorem mem_cancel_timers {key : Path} {t : Timer} :
    t ∈ (c.cancel key).timers ↔ t ∈ c.timers ∧ t.key.same key = false := by
  simp [cancel]

theorem Sound.cancel (h : c.Sound) (key : Path) : (c.cancel key).Sound where
  apart := h.apart.filter _
  ordered := h.ordered
  numbered := h.numbered
  quiet down := by
    have none_left := h.quiet down
    simp [Coordinator.cancel, none_left]

theorem mem_arm_timers {key : Path} {clock : Nat} {t : Timer} :
    t ∈ (c.arm key clock).timers ↔
      (t ∈ c.timers ∧ t.key.same key = false) ∨
        t = ⟨key, c.nextGeneration, clock + c.settings.debounce⟩ := by
  simp only [arm, List.mem_append, List.mem_singleton, mem_cancel_timers]

theorem Sound.arm (h : c.Sound) (up : c.shutDown = false) (key : Path) (clock : Nat) :
    (c.arm key clock).Sound where
  apart := by
    simp only [Coordinator.arm]
    rw [List.pairwise_append]
    refine ⟨(h.cancel key).apart, List.pairwise_singleton _ _, ?_⟩
    intro t ht u hu
    rw [List.mem_singleton.1 hu]
    exact (mem_cancel_timers.1 ht).2
  ordered := h.ordered
  numbered := h.numbered
  quiet down := by
    have : c.shutDown = true := down
    simp [up] at this

/-- The four ways a save ends. -/
theorem save_cases (c : Coordinator) (w : World) (path : Path) :
    (c.shutDown = true ∧ c.save w path = (.shutDown, c)) ∨
    (c.shutDown = false ∧ c.save w path = (.notSource, c)) ∨
    (c.shutDown = false ∧ c.save w path =
      (.fresh, { c with stats := { c.stats with ignoredFresh := c.stats.ignoredFresh + 1 } })) ∨
    (c.shutDown = false ∧ c.save w path = (.scheduled, c.arm (w.key path) w.clock)) := by
  unfold save
  cases down : c.shutDown with
  | true => exact .inl ⟨rfl, by simp⟩
  | false =>
    right
    by_cases source : path.hasExtension c.settings.extension = true
    · right
      by_cases fresh : c.isFresh (w.key path) w.wall = true
      · exact .inl ⟨rfl, by simp [source, fresh]⟩
      · exact .inr ⟨rfl, by simp [source, fresh]⟩
    · exact .inl ⟨rfl, by simp [source]⟩

@[simp] theorem save_shutDown (c : Coordinator) (w : World) (path : Path) :
    (c.save w path).2.shutDown = c.shutDown := by
  obtain ⟨-, e⟩ | ⟨-, e⟩ | ⟨-, e⟩ | ⟨-, e⟩ := save_cases c w path <;> simp [e, arm, cancel]

@[simp] theorem save_settings (c : Coordinator) (w : World) (path : Path) :
    (c.save w path).2.settings = c.settings := by
  obtain ⟨-, e⟩ | ⟨-, e⟩ | ⟨-, e⟩ | ⟨-, e⟩ := save_cases c w path <;> simp [e, arm, cancel]

@[simp] theorem save_jobs (c : Coordinator) (w : World) (path : Path) :
    (c.save w path).2.jobs = c.jobs := by
  obtain ⟨-, e⟩ | ⟨-, e⟩ | ⟨-, e⟩ | ⟨-, e⟩ := save_cases c w path <;> simp [e, arm, cancel]

@[simp] theorem save_nextJob (c : Coordinator) (w : World) (path : Path) :
    (c.save w path).2.nextJob = c.nextJob := by
  obtain ⟨-, e⟩ | ⟨-, e⟩ | ⟨-, e⟩ | ⟨-, e⟩ := save_cases c w path <;> simp [e, arm, cancel]

@[simp] theorem save_cache (c : Coordinator) (w : World) (path : Path) :
    (c.save w path).2.cache = c.cache := by
  obtain ⟨-, e⟩ | ⟨-, e⟩ | ⟨-, e⟩ | ⟨-, e⟩ := save_cases c w path <;> simp [e, arm, cancel]

theorem Sound.save (h : c.Sound) (w : World) (path : Path) : (c.save w path).2.Sound := by
  obtain ⟨-, e⟩ | ⟨-, e⟩ | ⟨-, e⟩ | ⟨up, e⟩ := save_cases c w path <;> rw [e]
  · exact h
  · exact h
  · exact ⟨h.apart, h.ordered, h.numbered, h.quiet⟩
  · exact h.arm up _ _

/-! ## Computations -/

theorem mem_start_jobs {key : Path} {origin : JobOrigin} {job : Job} :
    job ∈ (c.start key origin).jobs ↔ job ∈ c.jobs ∨ job = ⟨c.nextJob, key, origin, none⟩ := by
  simp [start]

theorem Sound.start (h : c.Sound) (key : Path) (origin : JobOrigin) :
    (c.start key origin).Sound where
  apart := h.apart
  ordered := by
    simp only [Coordinator.start]
    rw [List.pairwise_append]
    refine ⟨h.ordered, List.pairwise_singleton _ _, ?_⟩
    intro i hi j hj
    rw [List.mem_singleton.1 hj]
    exact h.numbered i hi
  numbered := by
    intro job hjob
    rw [mem_start_jobs] at hjob
    show job.number < c.nextJob + 1
    rcases hjob with old | rfl
    · exact Nat.lt_succ_of_lt (h.numbered job old)
    · exact Nat.lt_succ_self _
  quiet := h.quiet

/-- A timer that is there leaves, and its computation starts. -/
theorem fire_of_mem {t : Timer} (ht : t ∈ c.timers) :
    c.fire t.key t.generation = (c.cancel t.key).start t.key (.timer t.generation) := by
  unfold fire
  rw [if_pos]
  rw [List.any_eq_true]
  exact ⟨t, ht, by simp⟩

@[simp] theorem fire_shutDown (c : Coordinator) (key : Path) (generation : Nat) :
    (c.fire key generation).shutDown = c.shutDown := by
  unfold fire
  split_ifs <;> rfl

theorem Sound.fire (h : c.Sound) {t : Timer} (ht : t ∈ c.timers) :
    (c.fire t.key t.generation).Sound := by
  rw [fire_of_mem ht]
  exact (h.cancel _).start _ _

theorem Sound.eq_of_number (h : c.Sound) {i j : Job} (hi : i ∈ c.jobs) (hj : j ∈ c.jobs)
    (e : i.number = j.number) : i = j := by
  have unique : c.jobs.Pairwise fun i j => i.number = j.number → i = j :=
    h.ordered.imp fun before same => absurd same (Nat.ne_of_lt before)
  have unique' : c.jobs.Pairwise (flip fun i j : Job => i.number = j.number → i = j) :=
    h.ordered.imp fun before same => absurd same.symm (Nat.ne_of_lt before)
  exact unique.forall_of_forall_of_flip (fun _ _ _ => rfl) unique' hi hj e

/-- When a computation reads, it alone changes. -/
theorem mem_readFiles_jobs (h : c.Sound) {j : Job} (hj : j ∈ c.jobs) (unread : j.result = none)
    {w : World} {x : Job} :
    x ∈ (c.readFiles w j.number).jobs ↔
      x = { j with result := some (w.measure j.key) } ∨ (x ∈ c.jobs ∧ x.number ≠ j.number) := by
  simp only [readFiles, List.mem_map]
  constructor
  · rintro ⟨old, hold, rfl⟩
    by_cases e : old.number = j.number
    · obtain rfl := h.eq_of_number hold hj e
      left
      simp [unread]
    · right
      simp [e, hold]
  · rintro (rfl | ⟨hx, ne⟩)
    · exact ⟨j, hj, by simp [unread]⟩
    · exact ⟨x, hx, by simp [ne]⟩

/-- A computation reads only once. -/
theorem readFiles_of_read (h : c.Sound) {j : Job} (hj : j ∈ c.jobs) {bundle : Bundle}
    (read : j.result = some bundle) (w : World) : c.readFiles w j.number = c := by
  have kept : ∀ job ∈ c.jobs,
      (if job.number = j.number ∧ job.result.isNone then
        { job with result := some (w.measure job.key) }
      else job) = job := by
    intro job hjob
    rw [if_neg]
    rintro ⟨same, unread⟩
    rw [h.eq_of_number hjob hj same, read] at unread
    simp at unread
  unfold Coordinator.readFiles
  rw [List.map_congr_left kept, List.map_id']

theorem Sound.readFiles (h : c.Sound) (w : World) (number : Nat) :
    (c.readFiles w number).Sound where
  apart := h.apart
  ordered := by
    simp only [Coordinator.readFiles, List.pairwise_map]
    refine h.ordered.imp fun {i j} before => ?_
    split_ifs <;> exact before
  numbered := by
    simp only [Coordinator.readFiles, List.mem_map]
    rintro _ ⟨job, hjob, rfl⟩
    split_ifs <;> exact h.numbered job hjob
  quiet := h.quiet

@[simp] theorem store_timers (c : Coordinator) (key : Path) (bundle : Bundle) :
    (c.store key bundle).timers = c.timers := by
  unfold store
  split_ifs <;> rfl

@[simp] theorem store_jobs (c : Coordinator) (key : Path) (bundle : Bundle) :
    (c.store key bundle).jobs = c.jobs := by
  unfold store
  split_ifs <;> rfl

@[simp] theorem store_nextJob (c : Coordinator) (key : Path) (bundle : Bundle) :
    (c.store key bundle).nextJob = c.nextJob := by
  unfold store
  split_ifs <;> rfl

@[simp] theorem store_settings (c : Coordinator) (key : Path) (bundle : Bundle) :
    (c.store key bundle).settings = c.settings := by
  unfold store
  split_ifs <;> rfl

@[simp] theorem store_shutDown (c : Coordinator) (key : Path) (bundle : Bundle) :
    (c.store key bundle).shutDown = c.shutDown := by
  unfold store
  split_ifs <;> rfl

theorem store_of_up (up : c.shutDown = false) (key : Path) (bundle : Bundle) :
    c.store key bundle =
      { c with cache := Snapshot.store c.cache key bundle, published := c.published ++ [key] } := by
  unfold store
  rw [if_neg (by simp [up])]

theorem store_of_down (down : c.shutDown = true) (key : Path) (bundle : Bundle) :
    c.store key bundle =
      { c with stats := { c.stats with discarded := c.stats.discarded + 1 } } := by
  unfold store
  rw [if_pos down]

theorem Sound.store (h : c.Sound) (key : Path) (bundle : Bundle) : (c.store key bundle).Sound := by
  constructor
  · simpa using h.apart
  · simpa using h.ordered
  · simpa using h.numbered
  · simpa using h.quiet

/-- A computation leaves and is counted. -/
def leave (c : Coordinator) (number : Nat) : Coordinator :=
  { c with
    jobs := c.jobs.filter (·.number ≠ number)
    stats := { c.stats with computations := c.stats.computations + 1 } }

theorem mem_leave_jobs {number : Nat} {x : Job} :
    x ∈ (c.leave number).jobs ↔ x ∈ c.jobs ∧ x.number ≠ number := by
  simp [leave]

theorem Sound.leave (h : c.Sound) (number : Nat) : (c.leave number).Sound where
  apart := h.apart
  ordered := h.ordered.filter _
  numbered := fun job hjob => h.numbered job (mem_leave_jobs.1 hjob).1
  quiet := h.quiet

/-- A computation that leaves is the only one that does. -/
theorem Sound.perm_leave (h : c.Sound) {j : Job} (hj : j ∈ c.jobs) :
    c.jobs.Perm (j :: (c.leave j.number).jobs) := by
  obtain ⟨before, after, jobs⟩ := List.append_of_mem hj
  have ordered := h.ordered
  rw [jobs, List.pairwise_append, List.pairwise_cons] at ordered
  obtain ⟨-, ⟨later, -⟩, earlier⟩ := ordered
  have left : (c.leave j.number).jobs = before ++ after := by
    unfold Coordinator.leave
    simp only [jobs, List.filter_append]
    rw [List.filter_cons_of_neg (by simp), List.filter_eq_self.2, List.filter_eq_self.2]
    · intro x hx
      exact decide_eq_true (Nat.ne_of_gt (later x hx))
    · intro x hx
      exact decide_eq_true (Nat.ne_of_lt (earlier x hx j List.mem_cons_self))
  rw [jobs, left]
  exact List.perm_middle

/-- A computation that has read leaves, and its bundle is stored. -/
theorem finish_of_mem (h : c.Sound) {j : Job} (hj : j ∈ c.jobs) {bundle : Bundle}
    (read : j.result = some bundle) :
    c.finish j.number = (c.leave j.number).store j.key bundle := by
  have found : c.jobs.find? (·.number = j.number) = some j := by
    cases first : c.jobs.find? (·.number = j.number) with
    | none =>
      rw [List.find?_eq_none] at first
      exact absurd (decide_eq_true rfl) (first j hj)
    | some x =>
      have hx : x.number = j.number := by simpa using List.find?_some first
      rw [h.eq_of_number (List.mem_of_find?_eq_some first) hj hx]
  obtain ⟨number, key, origin, result⟩ := j
  obtain rfl : result = some bundle := read
  unfold finish
  rw [found]
  rfl

@[simp] theorem finish_shutDown (c : Coordinator) (number : Nat) :
    (c.finish number).shutDown = c.shutDown := by
  unfold finish
  split
  · rw [store_shutDown]
  · rfl

@[simp] theorem finish_settings (c : Coordinator) (number : Nat) :
    (c.finish number).settings = c.settings := by
  unfold finish
  split
  · rw [store_settings]
  · rfl

theorem Sound.finish (h : c.Sound) {j : Job} (hj : j ∈ c.jobs) {bundle : Bundle}
    (read : j.result = some bundle) : (c.finish j.number).Sound := by
  rw [finish_of_mem h hj read]
  exact (h.leave _).store _ _

theorem leave_readFiles_jobs (c : Coordinator) (w : World) (number : Nat) :
    ((c.readFiles w number).leave number).jobs = (c.leave number).jobs := by
  simp only [Coordinator.leave, Coordinator.readFiles, List.filter_map]
  have numbers : ((fun job : Job => decide (job.number ≠ number)) ∘ fun job : Job =>
      if job.number = number ∧ job.result.isNone then
        { job with result := some (w.measure job.key) }
      else job) = fun job => decide (job.number ≠ number) := by
    funext job
    simp only [Function.comp_apply]
    split_ifs <;> rfl
  rw [numbers]
  have others : ∀ job ∈ c.jobs.filter fun job => decide (job.number ≠ number),
      (if job.number = number ∧ job.result.isNone then
        { job with result := some (w.measure job.key) }
      else job) = job := by
    intro job hjob
    have ne : job.number ≠ number := by simpa using (List.mem_filter.1 hjob).2
    simp [ne]
  rw [List.map_congr_left others, List.map_id']

/-- A computation that is completed leaves, and all others stay as they are. -/
theorem complete_jobs (c : Coordinator) (w : World) (number : Nat) :
    (c.complete w number).jobs = (c.leave number).jobs := by
  rw [← leave_readFiles_jobs c w number]
  unfold complete finish
  split
  · rw [store_jobs]
    rfl
  next other =>
    -- A computation with this number would have been found, and it would have read.
    refine (List.filter_eq_self.2 ?_).symm
    intro job hjob
    rw [decide_eq_true_iff]
    intro same
    cases found : (c.readFiles w number).jobs.find? (·.number = number) with
    | none =>
      rw [List.find?_eq_none] at found
      exact found job hjob (decide_eq_true same)
    | some first =>
      have number_eq : first.number = number := by simpa using List.find?_some found
      obtain ⟨old, -, now⟩ := List.mem_map.1 (List.mem_of_find?_eq_some found)
      obtain ⟨n, k, origin, result⟩ := first
      cases result with
      | some bundle => exact other n k origin bundle found
      | none =>
        split_ifs at now with reads
        · simp at now
        · subst now
          exact reads ⟨number_eq, rfl⟩

/-- A computation that is completed leaves, and the bundle that it has or now reads is stored. -/
theorem complete_of_mem (h : c.Sound) {j : Job} (hj : j ∈ c.jobs) (w : World) :
    c.complete w j.number = (c.leave j.number).store j.key (j.result.getD (w.measure j.key)) := by
  unfold complete
  cases result : j.result with
  | some bundle =>
    rw [readFiles_of_read h hj result, finish_of_mem h hj result]
    rfl
  | none =>
    have read := (mem_readFiles_jobs h hj result (w := w)).2 (.inl rfl)
    have finishes := finish_of_mem (h.readFiles w j.number) read rfl
    simp only at finishes
    rw [finishes]
    have left : (c.readFiles w j.number).leave j.number = c.leave j.number := by
      have jobs := leave_readFiles_jobs c w j.number
      unfold Coordinator.leave Coordinator.readFiles at jobs ⊢
      simp only at jobs
      rw [jobs]
    rw [left]
    rfl

@[simp] theorem complete_shutDown (c : Coordinator) (w : World) (number : Nat) :
    (c.complete w number).shutDown = c.shutDown := by
  unfold complete
  rw [finish_shutDown]
  rfl

@[simp] theorem force_shutDown (c : Coordinator) (w : World) (path : Path) :
    (c.force w path).2.shutDown = c.shutDown := by
  unfold force
  split_ifs
  · rfl
  · rw [complete_shutDown]
    rfl

theorem Sound.shutdown (h : c.Sound) : c.shutdown.Sound :=
  ⟨.nil, h.ordered, h.numbered, fun _ => rfl⟩

end Coordinator

end CodeGauge
