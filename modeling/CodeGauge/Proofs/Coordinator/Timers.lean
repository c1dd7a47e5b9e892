import CodeGauge.Proofs.Coordinator.Log

/-!
# The timer of a file

A file has at most one timer (`Coordinator.Sound.timersOf_cases`). Only what is done to the file
itself changes it: a save that is scheduled replaces it, and a forced computation takes it away.
Settling takes away exactly the timers that are due (`Session.settle_timers`).

Of all this a log shows when saves of the file arrive (`Session.arrivals`) and which timers of it go
off (`Session.firings`).
-/

namespace CodeGauge

namespace Coordinator

variable {c : Coordinator} {key k : Path}

/-- The timers of a file. -/
def timersOf (c : Coordinator) (key : Path) : List Timer := c.timers.filter (·.key.same key)

theorem mem_timersOf {t : Timer} : t ∈ c.timersOf key ↔ t ∈ c.timers ∧ t.key.same key = true := by
  unfold timersOf
  rw [List.mem_filter]

theorem Sound.timersOf_cases (h : c.Sound) (key : Path) :
    c.timersOf key = [] ∨ ∃ t, c.timersOf key = [t] := by
  have apart : (c.timersOf key).Pairwise fun t u => t.key.same u.key = false := h.apart.filter _
  rcases timers : c.timersOf key with _ | ⟨t, _ | ⟨u, rest⟩⟩
  · exact .inl rfl
  · exact .inr ⟨t, rfl⟩
  · rw [timers] at apart
    have first : t ∈ c.timersOf key := by simp [timers]
    have second : u ∈ c.timersOf key := by simp [timers]
    have same := Path.same_trans (mem_timersOf.1 first).2 (Path.same_symm (mem_timersOf.1 second).2)
    simp [same] at apart

/-- If no two timers are for the same file, two that are must be one. -/
theorem eq_of_apart {timers : List Timer}
    (apart : timers.Pairwise fun t u => t.key.same u.key = false) {t u : Timer} (ht : t ∈ timers)
    (hu : u ∈ timers) (same : t.key.same u.key = true) : t = u := by
  have unique : timers.Pairwise fun t u => t.key.same u.key = true → t = u :=
    apart.imp fun apart same => absurd same (by simp [apart])
  have unique' : timers.Pairwise (flip fun t u => t.key.same u.key = true → t = u) :=
    apart.imp fun apart same => absurd (Path.same_symm same) (by simp [apart])
  exact unique.forall_of_forall_of_flip (fun _ _ _ => rfl) unique' ht hu same

theorem Sound.eq_of_key (h : c.Sound) {t u : Timer} (ht : t ∈ c.timers) (hu : u ∈ c.timers)
    (same : t.key.same u.key = true) : t = u := eq_of_apart h.apart ht hu same

/-! ## What a coordinator does to it -/

theorem timersOf_cancel_of_same (h : k.same key = true) : (c.cancel k).timersOf key = [] := by
  rw [List.eq_nil_iff_forall_not_mem]
  intro t ht
  obtain ⟨there, same⟩ := mem_timersOf.1 ht
  have other := (mem_cancel_timers.1 there).2
  rw [Path.same_trans same (Path.same_symm h)] at other
  simp at other

theorem timersOf_cancel_of_not_same (h : k.same key = false) :
    (c.cancel k).timersOf key = c.timersOf key := by
  unfold timersOf cancel
  rw [List.filter_filter]
  apply List.filter_congr
  intro t _
  by_cases same : t.key.same key = true
  · have other : t.key.same k = false := by
      rw [Path.same_comm, Path.same_congr same]
      exact h
    simp [same, other]
  · simp [same]

theorem timersOf_arm_of_same (h : k.same key = true) (clock : Nat) :
    (c.arm k clock).timersOf key = [⟨k, c.nextGeneration, clock + c.settings.debounce⟩] := by
  have old := timersOf_cancel_of_same (c := c) h
  unfold timersOf at old ⊢
  simp only [arm, List.filter_append, old, List.nil_append]
  simp [h]

theorem timersOf_arm_of_not_same (h : k.same key = false) (clock : Nat) :
    (c.arm k clock).timersOf key = c.timersOf key := by
  have old := timersOf_cancel_of_not_same (c := c) h
  unfold timersOf at old ⊢
  simp only [arm, List.filter_append, old]
  simp [h]

@[simp] theorem finish_timers (c : Coordinator) (number : Nat) :
    (c.finish number).timers = c.timers := by
  unfold finish
  split
  · rw [store_timers]
  · rfl

theorem finish_nextGeneration (c : Coordinator) (number : Nat) :
    (c.finish number).nextGeneration = c.nextGeneration := by
  unfold finish store
  split
  · split_ifs <;> rfl
  · rfl

@[simp] theorem complete_timers (c : Coordinator) (w : World) (number : Nat) :
    (c.complete w number).timers = c.timers := by
  unfold complete
  rw [finish_timers]
  rfl

theorem timersOf_force_of_not_same {w : World} {path : Path} (h : (w.key path).same key = false) :
    (c.force w path).2.timersOf key = c.timersOf key := by
  unfold force
  split_ifs
  · rfl
  · have others := timersOf_cancel_of_not_same (c := c) h
    unfold timersOf at others ⊢
    rw [complete_timers]
    exact others

/-- Timers that go off in turn take those of their files away. -/
theorem fires_timers (due : List Timer) (armed : ∀ t ∈ due, t ∈ c.timers)
    (apart : due.Pairwise fun t u => t.key.same u.key = false) :
    (due.foldl (fun c t => c.fire t.key t.generation) c).timers =
      c.timers.filter fun u => due.all fun t => !u.key.same t.key := by
  induction due generalizing c with
  | nil => exact (List.filter_eq_self.2 (by simp)).symm
  | cons t rest ih =>
    obtain ⟨others, apart⟩ := List.pairwise_cons.1 apart
    have left : (c.fire t.key t.generation).timers = (c.cancel t.key).timers := by
      rw [fire_of_mem (armed t List.mem_cons_self)]
      rfl
    rw [List.foldl_cons, ih ?_ apart, left]
    · simp [cancel, List.filter_filter, Bool.and_comm]
    · intro u hu
      rw [left, mem_cancel_timers, Path.same_comm]
      exact ⟨armed u (List.mem_cons_of_mem _ hu), others u hu⟩

end Coordinator

/-! ## Settling -/

namespace Session

variable {s : Session} {key : Path}

theorem fireDue_timers (sound : s.coordinator.Sound) :
    s.fireDue.coordinator.timers = s.coordinator.timers.filter (s.world.clock < ·.due) := by
  unfold fireDue
  rw [Coordinator.fires_timers _ (fun t ht => (List.mem_filter.1 ht).1) (sound.apart.filter _)]
  apply List.filter_congr
  intro u hu
  rw [Bool.eq_iff_iff, List.all_eq_true, decide_eq_true_iff]
  constructor
  · intro apart
    by_contra early
    have self := apart u (List.mem_filter.2 ⟨hu, by simpa using early⟩)
    simp at self
  · intro late t ht
    obtain ⟨there, early⟩ := List.mem_filter.1 ht
    by_contra this
    obtain rfl := sound.eq_of_key hu there (by simpa using this)
    simp at early
    omega

/-- Settling takes away the timers that are due. -/
theorem settle_timers (sound : s.coordinator.Sound) :
    s.settle.coordinator.timers = s.coordinator.timers.filter (s.world.clock < ·.due) := by
  rw [← fireDue_timers sound]
  exact settle_induction (P := fun c => c.timers = s.fireDue.coordinator.timers) rfl
    fun c number same => (Coordinator.complete_timers c s.world number).trans same

theorem settle_timersOf (sound : s.coordinator.Sound) (key : Path) :
    s.settle.coordinator.timersOf key =
      (s.coordinator.timersOf key).filter (s.world.clock < ·.due) := by
  unfold Coordinator.timersOf
  rw [settle_timers sound, List.filter_filter, List.filter_filter]
  simp [Bool.and_comm]

@[simp] theorem settle_world (s : Session) : s.settle.world = s.world := by
  unfold settle
  simp only
  split_ifs <;> rfl

theorem forceTimes_world (s : Session) (path : Path) (times : Nat) :
    (s.forceTimes path times).2.world = s.world := by
  induction times generalizing s with
  | zero => rfl
  | succ n ih => rw [forceTimes_succ, ih]

end Session

/-! ## Arrivals and firings -/

namespace Event

/-- The time of the clock at which a save of the file is scheduled in this event. -/
def arrivalOf? (key : Path) : Event → Option Nat
  | saved _ k .scheduled clock => if k.same key then some clock else none
  | _ => none

/-- The timer of the file that goes off in this event, with the time of the clock. -/
def firingOf? (key : Path) : Event → Option (Timer × Nat)
  | fired timer clock => if timer.key.same key then some (timer, clock) else none
  | _ => none

/-- Whether a save is noticed or a timer goes off in this event. -/
def isTimed : Event → Bool
  | saved .. | fired .. => true
  | _ => false

end Event

namespace Session

/-- The times at which saves of a file were scheduled. -/
def arrivalTimes (key : Path) (log : List Event) : List Nat := log.filterMap (Event.arrivalOf? key)

/-- The scheduled saves of a file in some steps, each with the number of its step and its time. -/
def arrivals (key : Path) (logs : List (List Event)) : List (Nat × Nat) :=
  logs.zipIdx.flatMap fun (log, step) => (arrivalTimes key log).map (step, ·)

/-- The timers of a file that went off, each with the time at which it did. -/
def firings (key : Path) (log : List Event) : List (Timer × Nat) :=
  log.filterMap (Event.firingOf? key)

theorem arrivalTimes_append (key : Path) (log more : List Event) :
    arrivalTimes key (log ++ more) = arrivalTimes key log ++ arrivalTimes key more :=
  List.filterMap_append

theorem firings_append (key : Path) (log more : List Event) :
    firings key (log ++ more) = firings key log ++ firings key more := List.filterMap_append

theorem arrivals_concat (key : Path) (logs : List (List Event)) (log : List Event) :
    arrivals key (logs ++ [log]) =
      arrivals key logs ++ (arrivalTimes key log).map (logs.length, ·) := by
  simp [arrivals, List.zipIdx_append]

theorem arrivalTimes_of_untimed {log : List Event} (h : ∀ e ∈ log, e.isTimed = false) (key : Path) :
    arrivalTimes key log = [] := by
  unfold arrivalTimes
  rw [List.filterMap_eq_nil_iff]
  intro e he
  have := h e he
  cases e <;> simp_all [Event.isTimed, Event.arrivalOf?]

theorem firings_of_untimed {log : List Event} (h : ∀ e ∈ log, e.isTimed = false) (key : Path) :
    firings key log = [] := by
  unfold firings
  rw [List.filterMap_eq_nil_iff]
  intro e he
  have := h e he
  cases e <;> simp_all [Event.isTimed, Event.firingOf?]

theorem untimed_completeEvents (job : Job) (w : World) (down : Bool) :
    ∀ e ∈ job.completeEvents w down, e.isTimed = false := by
  unfold Job.completeEvents
  split <;> simp [Event.isTimed]

theorem untimed_forceTimesEvents (s : Session) (path : Path) (times : Nat) :
    ∀ e ∈ s.forceTimesEvents path times, e.isTimed = false := by
  induction times generalizing s with
  | zero => simp [forceTimesEvents]
  | succ n ih =>
    intro e he
    rcases List.mem_append.1 he with first | rest
    · unfold Coordinator.forceEvents at first
      split_ifs at first
      · rw [List.mem_singleton.1 first]
        rfl
      · rcases List.mem_cons.1 first with rfl | work
        · rfl
        · exact untimed_completeEvents _ _ _ e work
    · exact ih _ e rest

theorem firings_saveEvents (c : Coordinator) (w : World) (paths : List Path) (key : Path) :
    firings key (c.saveEvents w paths) = [] := by
  induction paths generalizing c with
  | nil => rfl
  | cons path rest ih => exact ih (c.save w path).2

theorem settleEvents_split (s : Session) : ∃ work, (∀ e ∈ work, e.isTimed = false) ∧
    s.settleEvents = (s.coordinator.timers.filter (·.due ≤ s.world.clock)).map
      (.fired · s.world.clock) ++ work := by
  refine ⟨_, ?_, rfl⟩
  intro e he
  split_ifs at he
  · simp at he
  · obtain ⟨job, -, there⟩ := List.mem_flatMap.1 he
    exact untimed_completeEvents _ _ _ e there

theorem arrivalTimes_settleEvents (s : Session) (key : Path) :
    arrivalTimes key s.settleEvents = [] := by
  obtain ⟨work, untimed, events⟩ := settleEvents_split s
  rw [events, arrivalTimes_append, arrivalTimes_of_untimed untimed]
  unfold arrivalTimes
  rw [List.filterMap_map]
  simp [List.filterMap_eq_nil_iff, Event.arrivalOf?]

/-- The timers of a file that go off when a session settles are those that are due. -/
theorem firings_settleEvents (s : Session) (key : Path) :
    firings key s.settleEvents = ((s.coordinator.timersOf key).filter (·.due ≤ s.world.clock)).map
      (·, s.world.clock) := by
  obtain ⟨work, untimed, events⟩ := settleEvents_split s
  rw [events, firings_append, firings_of_untimed untimed, List.append_nil]
  unfold firings Coordinator.timersOf
  rw [List.filterMap_map]
  induction s.coordinator.timers with
  | nil => rfl
  | cons t rest ih =>
    by_cases early : t.due ≤ s.world.clock <;> by_cases same : t.key.same key = true <;>
      simp_all [Event.firingOf?]

end Session

end CodeGauge
