import CodeGauge.Proofs.Coordinator.Accounts
import CodeGauge.Proofs.Coordinator.Lane

/-!
# Until nothing is left

When nobody asks for more, what is under way comes to its end: timers go off, and computations read
the files and finish, in whatever order. `Session.Draining` says what such a run keeps: firing moves
a file from the timers to the computations, finishing takes it away, and nothing adds one
(`Draining.moves`). Each of these moves is one less of those that are left (`Run.countP_progress`),
so the run ends, and when it has ended all that was waited for has been computed once
(`Draining.drained`).

* `waiting_drains_everything_once`: waiting is such a run and leads to idleness.
-/

namespace CodeGauge

/-! ## Work that is left -/

namespace Event

/-- Whether an event comes about by itself. Letting go of what is held counts too. -/
def isDraining : Event → Bool
  | fired _ _ | read _ _ _ | finished _ _ _ _ | waited _ | held _ => true
  | _ => false

/-- Whether a timer goes off, or a computation reads or finishes in this event. -/
def isProgress : Event → Bool
  | fired _ _ | read _ _ _ | finished _ _ _ _ => true
  | _ => false

end Event

namespace Coordinator

variable {c : Coordinator} {w : World}

/-- The files that are waited for: those of the computations under way and those with timers. A file
that has both is there twice. -/
def work (c : Coordinator) : List Path := c.jobs.map (·.key) ++ c.timers.map (·.key)

/-- The number of moves that are left: three for a timer, two for a computation, one if it has
read. -/
def remaining (c : Coordinator) : Nat :=
  3 * c.timers.length + c.jobs.countP (·.result.isNone) + c.jobs.length

theorem length_work (c : Coordinator) : c.work.length = c.timers.length + c.jobs.length := by
  rw [work, List.length_append, List.length_map, List.length_map, Nat.add_comm]

theorem isIdle_iff : c.isIdle = true ↔ c.timers = [] ∧ c.jobs = [] := by
  simp [isIdle]

theorem work_eq_nil_of_isIdle (idle : c.isIdle = true) : c.work = [] := by
  obtain ⟨timers, jobs⟩ := isIdle_iff.1 idle
  simp [work, timers, jobs]

theorem remaining_eq_zero_iff : c.remaining = 0 ↔ c.isIdle = true := by
  rw [isIdle_iff, remaining]
  constructor
  · intro none_left
    have timers : c.timers.length = 0 := by omega
    have jobs : c.jobs.length = 0 := by omega
    exact ⟨List.length_eq_zero_iff.1 timers, List.length_eq_zero_iff.1 jobs⟩
  · rintro ⟨timers, jobs⟩
    simp [timers, jobs]

/-- A timer that is taken away is the only one. -/
theorem Sound.perm_cancel (h : c.Sound) {t : Timer} (armed : t ∈ c.timers) :
    c.timers.Perm (t :: (c.cancel t.key).timers) := by
  obtain ⟨before, after, timers⟩ := List.append_of_mem armed
  have apart := h.apart
  rw [timers, List.pairwise_append, List.pairwise_cons] at apart
  obtain ⟨-, ⟨later, -⟩, earlier⟩ := apart
  have left : (c.cancel t.key).timers = before ++ after := by
    unfold Coordinator.cancel
    simp only [timers, List.filter_append]
    rw [List.filter_cons_of_neg (by simp), List.filter_eq_self.2, List.filter_eq_self.2]
    · intro u there
      rw [Path.same_comm, later u there]
      rfl
    · intro u there
      rw [earlier u there t List.mem_cons_self]
      rfl
  rw [timers, left]
  exact List.perm_middle

theorem Sound.perm_fire_work (h : c.Sound) {t : Timer} (armed : t ∈ c.timers) :
    (c.fire t.key t.generation).work.Perm c.work := by
  rw [fire_of_mem armed]
  have taken := (h.perm_cancel armed).map (·.key)
  have started : ((c.cancel t.key).start t.key (.timer t.generation)).work =
      c.jobs.map (·.key) ++ (t :: (c.cancel t.key).timers).map (·.key) := by
    simp [work, Coordinator.start, Coordinator.cancel]
  rw [started]
  exact taken.symm.append_left _

theorem readFiles_work (c : Coordinator) (w : World) (number : Nat) :
    (c.readFiles w number).work = c.work := by
  have keys : (c.readFiles w number).jobs.map (·.key) = c.jobs.map (·.key) := by
    unfold readFiles
    rw [List.map_map]
    apply List.map_congr_left
    intro job _
    simp only [Function.comp_apply]
    split_ifs <;> rfl
  rw [work, work, keys]
  rfl

theorem Sound.perm_finish_work (h : c.Sound) {j : Job} (started : j ∈ c.jobs) {bundle : Bundle}
    (read : j.result = some bundle) : c.work.Perm (j.key :: (c.finish j.number).work) := by
  have left : (c.finish j.number).work = (c.leave j.number).jobs.map (·.key) ++
      c.timers.map (·.key) := by
    rw [finish_of_mem h started read, work, store_jobs, store_timers]
    rfl
  rw [left]
  exact ((h.perm_leave started).map (·.key)).append_right _

/-! ## Moves that are left -/

theorem Sound.remaining_fire (h : c.Sound) {t : Timer} (armed : t ∈ c.timers) :
    (c.fire t.key t.generation).remaining + 1 = c.remaining := by
  have timers := (h.perm_cancel armed).length_eq
  rw [List.length_cons] at timers
  rw [fire_of_mem armed]
  simp only [remaining, Coordinator.start, List.length_append, List.countP_append,
    List.length_singleton, List.countP_singleton, Option.isNone_none, if_true]
  simp only [Coordinator.cancel] at timers ⊢
  omega

theorem Sound.remaining_readFiles (h : c.Sound) {j : Job} (started : j ∈ c.jobs)
    (unread : j.result = none) (w : World) :
    (c.readFiles w j.number).remaining + 1 = c.remaining := by
  have reads := (mem_readFiles_jobs h started unread (w := w)).2 (.inl rfl)
  -- The computations other than this one are the same before and after.
  have before := h.perm_leave started
  have after := (h.readFiles w j.number).perm_leave reads
  simp only [leave_readFiles_jobs] at after
  simp only [remaining, after.countP_eq, after.length_eq, before.countP_eq, before.length_eq,
    List.countP_cons, List.length_cons, unread, Option.isNone_none, Option.isNone_some, if_true,
    Bool.false_eq_true, if_false]
  simp only [Coordinator.readFiles]
  omega

theorem Sound.remaining_finish (h : c.Sound) {j : Job} (started : j ∈ c.jobs) {bundle : Bundle}
    (read : j.result = some bundle) : (c.finish j.number).remaining + 1 = c.remaining := by
  have jobs := h.perm_leave started
  rw [finish_of_mem h started read, remaining, store_jobs, store_timers, remaining, jobs.countP_eq,
    jobs.length_eq, List.countP_cons, List.length_cons, read]
  simp only [Coordinator.leave, Option.isNone_some, Bool.false_eq_true, if_false]
  omega

end Coordinator

/-! ## Draining -/

namespace Session

variable {s t u : Session} {e : Event} {log : List Event}

/-- The file is cached as it was measured in one of the spellings in which it was waited for. -/
def MeasuredIn (s t : Session) (key : Path) : Prop :=
  ∃ k ∈ s.coordinator.work, k.same key = true ∧
    Snapshot.lookup? t.coordinator.cache key = some (s.world.measure k)

/-- What a run keeps in which nothing is asked for. The work that is left is a part of what there
was, and what is gone has been counted and, before the shutdown, stored. -/
structure Draining (s t : Session) : Prop where
  measure : ∀ key, t.world.measure key = s.world.measure key
  shutDown : t.coordinator.shutDown = s.coordinator.shutDown
  known : t.coordinator.work ⊆ s.coordinator.work
  read : ∀ j ∈ t.coordinator.jobs, ∀ bundle, j.result = some bundle → bundle = s.world.measure j.key
  computations : t.coordinator.stats.computations + t.coordinator.work.length =
    s.coordinator.stats.computations + s.coordinator.work.length
  discarded : t.coordinator.stats.discarded +
      (if s.coordinator.shutDown then s.coordinator.stats.computations else 0) =
    s.coordinator.stats.discarded +
      (if s.coordinator.shutDown then t.coordinator.stats.computations else 0)
  scheduled : t.coordinator.stats.scheduled = s.coordinator.stats.scheduled
  ignoredFresh : t.coordinator.stats.ignoredFresh = s.coordinator.stats.ignoredFresh
  kept : s.coordinator.shutDown = true → t.coordinator.cache = s.coordinator.cache
  others : ∀ key, (∀ k ∈ s.coordinator.work, k.same key = false) →
    Snapshot.lookup? t.coordinator.cache key = Snapshot.lookup? s.coordinator.cache key
  served : s.coordinator.shutDown = false → ∀ key ∈ s.coordinator.work,
    (∃ k ∈ t.coordinator.work, k.same key = true) ∨ MeasuredIn s t key

theorem Draining.start (unread : Unread s.coordinator) : Draining s s where
  measure _ := rfl
  shutDown := rfl
  known := List.Subset.refl _
  read j there bundle result := by
    rw [unread j there] at result
    contradiction
  computations := rfl
  discarded := rfl
  scheduled := rfl
  ignoredFresh := rfl
  kept _ := rfl
  others _ _ := rfl
  served _ key there := .inl ⟨key, there, Path.same_self key⟩

/-- A move that neither counts nor stores anything leaves the work as it is, up to its order. -/
theorem Draining.shift (h : Draining s t)
    (measure : ∀ key, u.world.measure key = t.world.measure key)
    (shutDown : u.coordinator.shutDown = t.coordinator.shutDown)
    (stats : u.coordinator.stats = t.coordinator.stats)
    (cache : u.coordinator.cache = t.coordinator.cache)
    (work : u.coordinator.work.Perm t.coordinator.work)
    (read : ∀ j ∈ u.coordinator.jobs, ∀ bundle, j.result = some bundle →
      bundle = s.world.measure j.key) : Draining s u where
  measure key := (measure key).trans (h.measure key)
  shutDown := shutDown.trans h.shutDown
  known := fun _ there => h.known (work.subset there)
  read := read
  computations := by
    rw [stats, work.length_eq]
    exact h.computations
  discarded := stats ▸ h.discarded
  scheduled := stats ▸ h.scheduled
  ignoredFresh := stats ▸ h.ignoredFresh
  kept down := cache.trans (h.kept down)
  others key none_waits := by
    rw [cache]
    exact h.others key none_waits
  served up key there := by
    rcases h.served up key there with ⟨k, waits, same⟩ | ⟨k, waited, same, found⟩
    · exact .inl ⟨k, work.symm.subset waits, same⟩
    · exact .inr ⟨k, waited, same, cache ▸ found⟩

theorem Draining.fire (h : Draining s t) (sound : t.coordinator.Sound) {timer : Timer}
    (armed : timer ∈ t.coordinator.timers) :
    Draining s { t with coordinator := t.coordinator.fire timer.key timer.generation } := by
  refine h.shift (fun _ => rfl) (Coordinator.fire_shutDown _ _ _) ?_ ?_
    (sound.perm_fire_work armed) ?_
  · rw [Coordinator.fire_of_mem armed]
    rfl
  · rw [Coordinator.fire_of_mem armed]
    rfl
  · intro j there bundle result
    rw [Coordinator.fire_of_mem armed] at there
    rcases Coordinator.mem_start_jobs.1 there with old | rfl
    · exact h.read j old bundle result
    · contradiction

theorem Draining.readFiles (h : Draining s t) (sound : t.coordinator.Sound) {j : Job}
    (started : j ∈ t.coordinator.jobs) (unread : j.result = none) :
    Draining s { t with coordinator := t.coordinator.readFiles t.world j.number } := by
  refine h.shift (fun _ => rfl) rfl rfl rfl ?_ ?_
  · exact Coordinator.readFiles_work t.coordinator t.world j.number ▸ .refl _
  · intro x there bundle result
    rcases (Coordinator.mem_readFiles_jobs sound started unread).1 there with rfl | ⟨old, -⟩
    · obtain rfl : t.world.measure j.key = bundle := by simpa using result
      exact h.measure j.key
    · exact h.read x old bundle result

/-- A computation that finishes takes its file away, and its bundle is stored unless the session is
shut down. -/
theorem Draining.finish (h : Draining s t) (sound : t.coordinator.Sound) {j : Job}
    (started : j ∈ t.coordinator.jobs) {bundle : Bundle} (result : j.result = some bundle) :
    Draining s { t with coordinator := t.coordinator.finish j.number } := by
  have work := sound.perm_finish_work started result
  have fewer := work.length_eq
  rw [List.length_cons] at fewer
  have finishes := Coordinator.finish_of_mem sound started result
  have down := h.shutDown
  have stats : (t.coordinator.finish j.number).stats =
      { t.coordinator.stats with
        computations := t.coordinator.stats.computations + 1
        discarded := t.coordinator.stats.discarded + if s.coordinator.shutDown then 1 else 0 } := by
    rw [finishes, Coordinator.store_stats, ← down]
    rfl
  have waited : j.key ∈ s.coordinator.work := h.known (work.symm.subset List.mem_cons_self)
  have measured : bundle = s.world.measure j.key := h.read j started bundle result
  -- What is found under a path is the new bundle if the path is this file, and else what was there
  -- before.
  have found (up : s.coordinator.shutDown = false) (key : Path) :
      Snapshot.lookup? (t.coordinator.finish j.number).cache key =
        if j.key.same key then some (s.world.measure j.key)
        else Snapshot.lookup? t.coordinator.cache key := by
    have still : (t.coordinator.leave j.number).shutDown = false := down.trans up
    rw [finishes, Coordinator.store_of_up still, measured]
    split_ifs with same
    · exact Snapshot.lookup?_store_of_same (Path.same_symm same)
    · apply Snapshot.lookup?_store_of_not_same
      rw [Path.same_comm]
      simpa using same
  have kept (isDown : s.coordinator.shutDown = true) :
      (t.coordinator.finish j.number).cache = t.coordinator.cache := by
    have still : (t.coordinator.leave j.number).shutDown = true := down.trans isDown
    rw [finishes, Coordinator.store_of_down still]
    rfl
  constructor
  · exact h.measure
  · exact (Coordinator.finish_shutDown _ _).trans down
  · intro k there
    exact h.known (work.symm.subset (List.mem_cons_of_mem _ there))
  · intro x there b read
    simp only [finishes, Coordinator.store_jobs] at there
    exact h.read x (Coordinator.mem_leave_jobs.1 there).1 b read
  · have balance := h.computations
    simp only [stats]
    omega
  · have balance := h.discarded
    simp only [stats]
    split_ifs at balance ⊢ <;> omega
  · simp only [stats]
    exact h.scheduled
  · simp only [stats]
    exact h.ignoredFresh
  · intro isDown
    exact (kept isDown).trans (h.kept isDown)
  · intro key none_waits
    cases up : s.coordinator.shutDown with
    | true =>
      simp only [kept up]
      exact h.others key none_waits
    | false =>
      simp only [found up, none_waits j.key waited, Bool.false_eq_true, if_false]
      exact h.others key none_waits
  · intro up key there
    by_cases same : j.key.same key = true
    · right
      refine ⟨j.key, waited, same, ?_⟩
      simp only [found up, same, if_true]
    · rcases h.served up key there with ⟨k, waits, this⟩ | ⟨k, listed, this, cached⟩
      · left
        refine ⟨k, ?_, this⟩
        rcases List.mem_cons.1 (work.subset waits) with rfl | still
        · contradiction
        · exact still
      · right
        refine ⟨k, listed, this, ?_⟩
        simp only [found up, same, Bool.false_eq_true, if_false]
        exact cached

/-- One move of a run in which nothing is asked for. -/
theorem Draining.moves (h : Draining s t) (sound : t.coordinator.Sound) (move : Moves t e u)
    (draining : e.isDraining = true) : Draining s u := by
  cases move with
  | work move =>
    cases move with
    | fire timer armed => exact h.fire sound armed
    | read j started unread => exact h.readFiles sound started unread
    | finish j bundle started result => exact h.finish sound started result
    | save | force | refuse | shutdown => simp [Event.isDraining] at draining
  | wait | hold => exact h.shift (fun _ => rfl) rfl rfl rfl (.refl _) h.read
  | date | edit | subscribe | drain => simp [Event.isDraining] at draining

theorem Run.draining (run : Run s log t) (sound : s.coordinator.Sound)
    (unread : Unread s.coordinator) (draining : ∀ e ∈ log, e.isDraining = true) : Draining s t := by
  induction run with
  | start => exact .start unread
  | move before last ih =>
    obtain ⟨earlier, now⟩ := List.forall_mem_append.1 draining
    exact (ih earlier).moves (before.sound sound) last (now _ List.mem_cons_self)

theorem Moves.remaining (move : Moves s e t) (sound : s.coordinator.Sound)
    (draining : e.isDraining = true) :
    t.coordinator.remaining + (if e.isProgress then 1 else 0) = s.coordinator.remaining := by
  cases move with
  | work move =>
    cases move with
    | fire timer armed => exact sound.remaining_fire armed
    | read j started unread => exact sound.remaining_readFiles started unread s.world
    | finish j bundle started result => exact sound.remaining_finish started result
    | save | force | refuse | shutdown => simp [Event.isDraining] at draining
  | wait | hold => rfl
  | date | edit | subscribe | drain => simp [Event.isDraining] at draining

/-- A run in which nothing is asked for makes as much progress as there are moves less at its
end. -/
theorem Run.countP_progress (run : Run s log t) (sound : s.coordinator.Sound)
    (draining : ∀ e ∈ log, e.isDraining = true) :
    log.countP Event.isProgress + t.coordinator.remaining = s.coordinator.remaining := by
  induction run with
  | start => simp
  | @move log t u e before last ih =>
    obtain ⟨earlier, now⟩ := List.forall_mem_append.1 draining
    have one := last.remaining (before.sound sound) (now _ List.mem_cons_self)
    have rest := ih earlier
    rw [List.countP_append, List.countP_singleton]
    omega

/-! ## Idleness -/

/-- All that a session waited for has been computed once: nothing is left, every file that was
waited for is cached as it is now, and every other file as it was. After the shutdown the cache
stays, and what was computed has been discarded. -/
structure Drained (s t : Session) : Prop where
  idle : t.coordinator.timers = [] ∧ t.coordinator.jobs = []
  computations : t.coordinator.stats.computations =
    s.coordinator.stats.computations + (s.coordinator.timers.length + s.coordinator.jobs.length)
  scheduled : t.coordinator.stats.scheduled = s.coordinator.stats.scheduled
  ignoredFresh : t.coordinator.stats.ignoredFresh = s.coordinator.stats.ignoredFresh
  discarded : t.coordinator.stats.discarded = s.coordinator.stats.discarded +
    if s.coordinator.shutDown then s.coordinator.jobs.length else 0
  cached : s.coordinator.shutDown = false → ∀ key ∈ s.coordinator.work, MeasuredIn s t key
  others : ∀ key, (∀ k ∈ s.coordinator.work, k.same key = false) →
    Snapshot.lookup? t.coordinator.cache key = Snapshot.lookup? s.coordinator.cache key
  kept : s.coordinator.shutDown = true → t.coordinator.cache = s.coordinator.cache

theorem Draining.drained (h : Draining s t) (sound : s.coordinator.Sound)
    (idle : t.coordinator.isIdle = true) : Drained s t := by
  have none_left := Coordinator.work_eq_nil_of_isIdle idle
  have computations := h.computations
  rw [none_left, List.length_nil, Nat.add_zero, Coordinator.length_work] at computations
  refine ⟨Coordinator.isIdle_iff.1 idle, computations, h.scheduled, h.ignoredFresh, ?_, ?_,
    h.others, h.kept⟩
  · have discarded := h.discarded
    rw [computations] at discarded
    cases down : s.coordinator.shutDown with
    | true =>
      rw [sound.quiet down, down] at discarded
      simp only [if_true, List.length_nil] at discarded ⊢
      omega
    | false => simpa [down] using discarded
  · intro up key there
    rcases h.served up key there with ⟨k, waits, -⟩ | measured
    · rw [none_left] at waits
      contradiction
    · exact measured

theorem isDraining_settleEvents (s : Session) : ∀ e ∈ s.settleEvents, e.isDraining = true := by
  intro e he
  rcases List.mem_append.1 he with fires | completes
  · obtain ⟨timer, -, rfl⟩ := List.mem_map.1 fires
    rfl
  · split_ifs at completes
    · simp at completes
    · obtain ⟨job, -, there⟩ := List.mem_flatMap.1 completes
      unfold Job.completeEvents at there
      split at there <;> simp only [List.mem_cons, List.not_mem_nil, or_false] at there
      · rcases there with rfl | rfl <;> rfl
      · rw [there]
        rfl

theorem isDraining_waitIdleEvents (s : Session) : ∀ e ∈ s.waitIdleEvents, e.isDraining = true := by
  have settles := isDraining_settleEvents { s with held := false }
  have settlesAgain := isDraining_settleEvents { s with held := false }.settle.skipToLast
  intro e he
  rcases List.mem_append.1 he with first | second
  · rcases List.mem_cons.1 first with rfl | there
    · rfl
    · exact settles e there
  · rcases List.mem_cons.1 second with rfl | there
    · rfl
    · exact settlesAgain e there

/-- Waiting leads to idleness. -/
theorem isIdle_waitIdle (sound : s.coordinator.Sound) : s.waitIdle.coordinator.isIdle = true := by
  let free : Session := { s with held := false }
  have settled : free.settle.coordinator.Sound := (run_settle (s := free) sound).sound sound
  rw [Coordinator.isIdle_iff]
  constructor
  · have timers := settle_timers (s := free.settle.skipToLast) settled
    refine timers.trans (List.filter_eq_nil_iff.2 ?_)
    intro timer there
    have due := due_le_skipToLast (s := free.settle) there
    simpa using due
  · exact settle_jobs (s := free.settle.skipToLast) (settle_held free)

theorem isIdle_step_waitIdle (sound : s.coordinator.Sound) :
    (s.step .waitIdle).2.coordinator.isIdle = true := by
  have waited := (run_waitIdle sound).sound sound
  have idle := Coordinator.isIdle_iff.1 (isIdle_waitIdle sound)
  rw [Coordinator.isIdle_iff]
  constructor
  · have timers := settle_timers waited
    rw [idle.1] at timers
    exact timers
  · exact settle_jobs ((settle_held _).trans (settle_held { s with held := false }))

theorem drained_waitIdle (sound : s.coordinator.Sound) (unread : Unread s.coordinator) :
    Drained s s.waitIdle :=
  ((run_waitIdle sound).draining sound unread (isDraining_waitIdleEvents s)).drained sound
    (isIdle_waitIdle sound)

theorem drained_step_waitIdle (sound : s.coordinator.Sound) (unread : Unread s.coordinator) :
    Drained s (s.step .waitIdle).2 := by
  have draining : ∀ e ∈ s.stepEvents .waitIdle, e.isDraining = true :=
    List.forall_mem_append.2 ⟨isDraining_waitIdleEvents s, isDraining_settleEvents _⟩
  exact ((run_step sound .waitIdle).draining sound unread draining).drained sound
    (isIdle_step_waitIdle sound)

/-- Waiting until a session is idle computes once whatever is waited for, in every state that a run
or the steps of a session can lead to. The same holds of any run in which nothing is asked for, once
it has come to its end, and it has as many moves as are left at its start. -/
theorem waiting_drains_everything_once (world : World) (settings : Settings) :
    (∀ log s, Run (Session.new world settings) log s → Unread s.coordinator →
      Drained s s.waitIdle ∧ ∀ more t, Run s more t → (∀ e ∈ more, e.isDraining = true) →
        more.countP Event.isProgress + t.coordinator.remaining = s.coordinator.remaining ∧
        (t.coordinator.remaining = 0 ↔ t.coordinator.isIdle = true) ∧
        (t.coordinator.isIdle = true → Drained s t)) ∧
    ∀ steps, let s := (Session.new world settings).after steps
      Drained s s.waitIdle ∧ Drained s (s.step .waitIdle).2 := by
  constructor
  · intro log s run unread
    have sound := run.sound (sound_new world settings)
    refine ⟨drained_waitIdle sound unread, ?_⟩
    intro more t rest draining
    refine ⟨rest.countP_progress sound draining, Coordinator.remaining_eq_zero_iff, ?_⟩
    exact (rest.draining sound unread draining).drained sound
  · intro steps s
    have sound := (run_after (sound_new world settings) steps).sound (sound_new world settings)
    have unread := unread_after world settings steps
    exact ⟨drained_waitIdle sound unread, drained_step_waitIdle sound unread⟩

/-- A file that has a computation held back and a timer besides is computed twice, another one
once. -/
theorem held_and_pending_are_both_computed :
    let steps : List Step := [.save (.ofString "A.java"), .hold, .advance 500,
      .save (.ofString "A.java"), .save (.ofString "B.java")]
    let start := Session.new .bare .default
    let s := start.after steps
    Run start (start.logs steps).flatten s ∧ Unread s.coordinator ∧
      s.coordinator.work = [.ofString "/A.java", .ofString "/A.java", .ofString "/B.java"] ∧
      Drained s s.waitIdle ∧ s.waitIdle.coordinator.stats.computations = 3 := by
  intro steps start s
  have run : Run start (start.logs steps).flatten s := run_after (sound_new _ _) steps
  have unread : Unread s.coordinator := unread_after .bare .default steps
  have drained := ((waiting_drains_everything_once .bare .default).1 _ s run unread).1
  exact ⟨run, unread, by decide, drained, by decide⟩

end Session

end CodeGauge
