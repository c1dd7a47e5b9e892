import CodeGauge.Proofs.Coordinator.Timers

/-!
# The debounce

When the timers of a file go off in a session, told from the times at which its saves arrive. Saves
belong to one burst as long as each comes before the timer of the one before it is due, or in the
same step. The timer of a burst is due a debounce after its last save.

* `Tracks`: what links the arrivals and the firings so far to the timer that is there;
* `Tracks.save`, `Tracks.settle`: what a save and settling do to it;
* `Debounced`: which timers have fired, and whether one is left;
* `debounce_law`: this holds after any steps.
-/

namespace CodeGauge

namespace Session

/-! ## Bursts -/

/-- Whether two saves, one right after the other, belong to different bursts. -/
def apart (debounce : Nat) (first next : Nat × Nat) : Bool :=
  first.1 ≠ next.1 ∧ first.2 + debounce ≤ next.2

/-- When the timers of all bursts but the last are due. -/
def earlierDues (debounce : Nat) (saves : List (Nat × Nat)) : List Nat :=
  ((saves.zip saves.tail).filter fun (first, next) => apart debounce first next).map
    fun (first, _) => first.2 + debounce

variable {debounce : Nat} {saves : List (Nat × Nat)}

theorem zip_tail_concat {α : Type} (l : List α) (x : α) :
    (l ++ [x]).zip (l ++ [x]).tail = l.zip l.tail ++ l.getLast?.toList.map (·, x) := by
  induction l with
  | nil => rfl
  | cons y rest ih =>
    cases rest with
    | nil => rfl
    | cons z rest => simpa using ih

/-- A save that starts a new burst ends the one before. -/
theorem earlierDues_concat_of_apart {last next : Nat × Nat}
    (isLast : saves.getLast? = some last) (h : apart debounce last next = true) :
    earlierDues debounce (saves ++ [next]) = earlierDues debounce saves ++ [last.2 + debounce] := by
  unfold earlierDues
  rw [zip_tail_concat, isLast]
  simp [h]

/-- A save that continues a burst ends none. -/
theorem earlierDues_concat_of_not_apart {next : Nat × Nat}
    (h : ∀ last ∈ saves.getLast?, apart debounce last next = false) :
    earlierDues debounce (saves ++ [next]) = earlierDues debounce saves := by
  unfold earlierDues
  rw [zip_tail_concat]
  cases isLast : saves.getLast? with
  | none => simp
  | some last =>
    have same := h last isLast
    simp [same]

theorem length_earlierDues (debounce : Nat) (saves : List (Nat × Nat)) :
    (earlierDues debounce saves).length =
      (saves.zip saves.tail).countP fun (first, next) => apart debounce first next := by
  unfold earlierDues
  rw [List.length_map, List.countP_eq_length_filter]

/-! ## Arrivals, firings and the timer -/

/-- What links the saves of a file and the timers of it that have fired to the timer that is there:
it is the one of the last burst, and those of all other bursts have fired. -/
structure Tracks (key : Path) (debounce : Nat) (saves : List (Nat × Nat))
    (fired : List (Timer × Nat)) (s : Session) : Prop where
  settings : s.coordinator.settings.debounce = debounce
  sorted : saves.Pairwise fun first next => first.2 ≤ next.2
  past : ∀ save ∈ saves, save.2 ≤ s.world.clock
  dues : fired.map (·.1.due) ++ (s.coordinator.timersOf key).map (·.due) =
    earlierDues debounce saves ++ saves.getLast?.toList.map (·.2 + debounce)
  onTime : ∀ firing ∈ fired, firing.1.due ≤ firing.2
  expired : s.coordinator.timersOf key = [] →
    ∀ last ∈ saves.getLast?, last.2 + debounce ≤ s.world.clock

/-- Whether a save in this step would be put in the right burst: a timer that is due was armed in
this step, and one that has fired was armed in an earlier one. -/
structure Ready (key : Path) (turn : Nat) (saves : List (Nat × Nat)) (s : Session) : Prop where
  waiting : ∀ t ∈ s.coordinator.timersOf key,
    s.world.clock < t.due ∨ ∃ last ∈ saves.getLast?, last.1 = turn
  fired : s.coordinator.timersOf key = [] → ∀ last ∈ saves.getLast?, last.1 ≠ turn

variable {key : Path} {turn : Nat} {fired : List (Timer × Nat)} {s s' : Session}

theorem Tracks.later (h : Tracks key debounce saves fired s)
    (settings : s'.coordinator.settings = s.coordinator.settings)
    (timers : s'.coordinator.timersOf key = s.coordinator.timersOf key)
    (clock : s.world.clock ≤ s'.world.clock) : Tracks key debounce saves fired s' where
  settings := by rw [settings, h.settings]
  sorted := h.sorted
  past save hs := Nat.le_trans (h.past save hs) clock
  dues := by rw [timers, h.dues]
  onTime := h.onTime
  expired none_left last isLast := by
    rw [timers] at none_left
    exact Nat.le_trans (h.expired none_left last isLast) clock

/-- The timer that is there is the one of the last burst. -/
theorem Tracks.of_timer (h : Tracks key debounce saves fired s) {t : Timer}
    (only : s.coordinator.timersOf key = [t]) :
    ∃ last, saves.getLast? = some last ∧ t.due = last.2 + debounce ∧
      fired.map (·.1.due) = earlierDues debounce saves := by
  have dues := h.dues
  rw [only] at dues
  cases isLast : saves.getLast? with
  | none =>
    obtain rfl := List.getLast?_eq_none_iff.1 isLast
    simp [earlierDues] at dues
  | some last =>
    rw [isLast] at dues
    obtain ⟨before, this⟩ := List.append_inj' dues rfl
    exact ⟨last, rfl, by simpa using this, before⟩

/-- A save of the file replaces its timer, or starts a new burst if there is none. -/
theorem Tracks.arm (h : Tracks key debounce saves fired s) (ready : Ready key turn saves s)
    (sound : s.coordinator.Sound) {k : Path} (same : k.same key = true) :
    Tracks key debounce (saves ++ [(turn, s.world.clock)]) fired
      { s with coordinator := s.coordinator.arm k s.world.clock } := by
  have timer := Coordinator.timersOf_arm_of_same (c := s.coordinator) same s.world.clock
  have ended : fired.map (·.1.due) = earlierDues debounce (saves ++ [(turn, s.world.clock)]) := by
    rcases sound.timersOf_cases key with none_left | ⟨t, only⟩
    · -- The timer of the last save has fired, in an earlier step: its burst is over.
      have dues := h.dues
      rw [none_left, List.map_nil, List.append_nil] at dues
      cases isLast : saves.getLast? with
      | none =>
        obtain rfl := List.getLast?_eq_none_iff.1 isLast
        exact dues
      | some last =>
        have next : apart debounce last (turn, s.world.clock) = true := by
          have elsewhere := ready.fired none_left last isLast
          have expired := h.expired none_left last isLast
          simp [apart, elsewhere, expired]
        rw [dues, earlierDues_concat_of_apart isLast next, isLast]
        rfl
    · -- The timer is there. Either it is not due, or the save comes in the step that armed it.
      obtain ⟨last, isLast, due, before⟩ := h.of_timer only
      rw [before, earlierDues_concat_of_not_apart]
      intro other isOther
      obtain rfl := Option.mem_unique isLast isOther
      rcases ready.waiting t (by simp [only]) with late | ⟨other, isOther, here⟩
      · have : ¬ last.2 + debounce ≤ s.world.clock := by omega
        simp [apart, this]
      · obtain rfl := Option.mem_unique isLast isOther
        simp [apart, here]
  constructor
  · exact h.settings
  · rw [List.pairwise_append]
    refine ⟨h.sorted, List.pairwise_singleton _ _, ?_⟩
    intro x hx y hy
    rw [List.mem_singleton.1 hy]
    exact h.past x hx
  · intro x hx
    rcases List.mem_append.1 hx with old | new
    · exact h.past x old
    · obtain rfl := List.mem_singleton.1 new
      exact Nat.le_refl _
  · rw [timer, ended, h.settings]
    simp
  · exact h.onTime
  · intro none_left
    rw [timer] at none_left
    simp at none_left

theorem Ready.arm (key : Path) (turn : Nat) (saves : List (Nat × Nat)) (s : Session) {k : Path}
    (same : k.same key = true) :
    Ready key turn (saves ++ [(turn, s.world.clock)])
      { s with coordinator := s.coordinator.arm k s.world.clock } := by
  have timer := Coordinator.timersOf_arm_of_same (c := s.coordinator) same s.world.clock
  constructor
  · intro t _
    exact .inr ⟨(turn, s.world.clock), by simp, rfl⟩
  · intro none_left
    rw [timer] at none_left
    simp at none_left

/-- A save that arms no timer of the file changes nothing. -/
theorem Ready.congr (h : Ready key turn saves s)
    (timers : s'.coordinator.timersOf key = s.coordinator.timersOf key)
    (clock : s'.world.clock = s.world.clock) : Ready key turn saves s' where
  waiting := by
    rw [timers, clock]
    exact h.waiting
  fired := by
    rw [timers]
    exact h.fired

theorem Tracks.save (h : Tracks key debounce saves fired s) (ready : Ready key turn saves s)
    (sound : s.coordinator.Sound) (path : Path) :
    let times := arrivalTimes key
      [.saved path (s.world.key path) (s.coordinator.save s.world path).1 s.world.clock]
    let saved := { s with coordinator := (s.coordinator.save s.world path).2 }
    Tracks key debounce (saves ++ times.map (turn, ·)) fired saved ∧
      Ready key turn (saves ++ times.map (turn, ·)) saved := by
  intro times saved
  -- Unless a timer of the file is armed, nothing arrives and its timer stays as it is.
  have otherwise : times = [] →
      saved.coordinator.timersOf key = s.coordinator.timersOf key →
      Tracks key debounce (saves ++ times.map (turn, ·)) fired saved ∧
        Ready key turn (saves ++ times.map (turn, ·)) saved := by
    intro none_new timers
    rw [none_new, List.map_nil, List.append_nil]
    exact ⟨h.later (Coordinator.save_settings _ _ _) timers (Nat.le_refl _), ready.congr timers rfl⟩
  obtain ⟨-, result⟩ | ⟨-, result⟩ | ⟨-, result⟩ | ⟨-, result⟩ :=
    Coordinator.save_cases s.coordinator s.world path
  · exact otherwise (by simp [times, result, arrivalTimes, Event.arrivalOf?])
      (by simp [saved, result])
  · exact otherwise (by simp [times, result, arrivalTimes, Event.arrivalOf?])
      (by simp [saved, result])
  · exact otherwise (by simp [times, result, arrivalTimes, Event.arrivalOf?])
      (by simp [saved, result, Coordinator.timersOf])
  · cases same : (s.world.key path).same key with
    | false =>
      refine otherwise (by simp [times, result, arrivalTimes, Event.arrivalOf?, same]) ?_
      simp only [saved, result]
      exact Coordinator.timersOf_arm_of_not_same same _
    | true =>
      have one_new : times = [s.world.clock] := by
        simp [times, result, arrivalTimes, Event.arrivalOf?, same]
      rw [one_new]
      simp only [saved, result]
      exact ⟨h.arm ready sound same, Ready.arm key turn saves s same⟩

theorem Tracks.saveAll (h : Tracks key debounce saves fired s) (ready : Ready key turn saves s)
    (sound : s.coordinator.Sound) (paths : List Path) :
    Tracks key debounce
      (saves ++ (arrivalTimes key (s.coordinator.saveEvents s.world paths)).map (turn, ·)) fired
      { s with coordinator := (s.coordinator.saveAll s.world paths).2 } := by
  induction paths generalizing s saves with
  | nil => simpa [Coordinator.saveEvents, Coordinator.saveAll, arrivalTimes] using h
  | cons path rest ih =>
    obtain ⟨first, ready⟩ := h.save ready sound path
    have further := ih first ready (sound.save s.world path)
    rw [List.append_assoc, ← List.map_append, ← arrivalTimes_append] at further
    exact further

/-- When a session settles, a timer that is due fires and the burst is over. -/
theorem Tracks.settle (h : Tracks key debounce saves fired s) (sound : s.coordinator.Sound) :
    Tracks key debounce saves (fired ++ firings key s.settleEvents) s.settle := by
  have settings := (run_settle sound).settings_eq
  have timers := settle_timersOf sound key
  have fires := firings_settleEvents s key
  constructor
  · rw [settings, h.settings]
  · exact h.sorted
  · rw [settle_world]
    exact h.past
  · rw [← h.dues, timers, fires]
    rcases sound.timersOf_cases key with none_left | ⟨t, only⟩
    · simp [none_left]
    · by_cases early : t.due ≤ s.world.clock
      · simp [only, early]
      · simp [only, early, Nat.lt_of_not_le early]
  · intro firing hf
    rcases List.mem_append.1 hf with old | new
    · exact h.onTime firing old
    · rw [fires] at new
      obtain ⟨t, ht, rfl⟩ := List.mem_map.1 new
      simpa using (List.mem_filter.1 ht).2
  · rw [timers, settle_world]
    intro none_left last isLast
    rcases sound.timersOf_cases key with none_before | ⟨t, only⟩
    · exact h.expired none_before last isLast
    · obtain ⟨other, isOther, due, -⟩ := h.of_timer only
      obtain rfl := Option.mem_unique isLast isOther
      have early : t.due ≤ s.world.clock := by simpa [only] using none_left
      omega

/-- A timer that is still there after that is not due. -/
theorem clock_lt_due_settle (sound : s.coordinator.Sound) :
    ∀ t ∈ s.settle.coordinator.timersOf key, s.settle.world.clock < t.due := by
  intro t ht
  rw [settle_timersOf sound] at ht
  rw [settle_world]
  simpa using (List.mem_filter.1 ht).2

/-! ## Steps -/

theorem Tracks.waitIdle (h : Tracks key debounce saves fired s) (sound : s.coordinator.Sound) :
    Tracks key debounce (saves ++ (arrivalTimes key s.waitIdleEvents).map (turn, ·))
      (fired ++ firings key s.waitIdleEvents) s.waitIdle := by
  have released : Tracks key debounce saves fired { s with held := false } :=
    h.later rfl rfl (Nat.le_refl _)
  have first := released.settle sound
  have sound' := (run_settle (s := { s with held := false }) sound).sound sound
  have waited : Tracks key debounce saves _ { s with held := false }.settle.skipToLast :=
    first.later rfl rfl (clock_le_skipToLast _)
  have second := waited.settle sound'
  have arrive : arrivalTimes key s.waitIdleEvents = [] := by
    unfold waitIdleEvents
    rw [arrivalTimes_append]
    show arrivalTimes key { s with held := false }.settleEvents ++
      arrivalTimes key { s with held := false }.settle.skipToLast.settleEvents = []
    rw [arrivalTimes_settleEvents, arrivalTimes_settleEvents, List.append_nil]
  have fire : firings key s.waitIdleEvents = firings key { s with held := false }.settleEvents ++
      firings key { s with held := false }.settle.skipToLast.settleEvents := by
    unfold waitIdleEvents
    rw [firings_append]
    rfl
  rw [arrive, fire, List.map_nil, List.append_nil, ← List.append_assoc]
  exact second

theorem timersOf_forceTimes {path : Path} (other : (s.world.key path).same key = false)
    (times : Nat) :
    (s.forceTimes path times).2.coordinator.timersOf key = s.coordinator.timersOf key := by
  induction times generalizing s with
  | zero => rfl
  | succ n ih =>
    rw [forceTimes_succ]
    have further := ih (s := { s with coordinator := (s.coordinator.force s.world path).2 }) other
    exact further.trans (Coordinator.timersOf_force_of_not_same other)

/-- What a step does before anything settles. -/
theorem Tracks.act (h : Tracks key debounce saves fired s) (sound : s.coordinator.Sound)
    (ready : Ready key turn saves s) {next : Step} (other : next ≠ .shutdown)
    (unforced : ∀ path n, next = .force path (n + 1) → (s.world.key path).same key = false) :
    Tracks key debounce (saves ++ (arrivalTimes key (s.actEvents next)).map (turn, ·))
      (fired ++ firings key (s.actEvents next)) (s.act next).2 := by
  have unsaved {log : List Event} {t : Session} (untimed : ∀ e ∈ log, e.isTimed = false)
      (settings : t.coordinator.settings = s.coordinator.settings)
      (timers : t.coordinator.timersOf key = s.coordinator.timersOf key)
      (clock : s.world.clock ≤ t.world.clock) :
      Tracks key debounce (saves ++ (arrivalTimes key log).map (turn, ·))
        (fired ++ firings key log) t := by
    rw [arrivalTimes_of_untimed untimed, firings_of_untimed untimed, List.map_nil, List.append_nil,
      List.append_nil]
    exact h.later settings timers clock
  have saved (paths : List Path) : Tracks key debounce
      (saves ++ (arrivalTimes key (s.coordinator.saveEvents s.world paths)).map (turn, ·))
      (fired ++ firings key (s.coordinator.saveEvents s.world paths))
      { s with coordinator := (s.coordinator.saveAll s.world paths).2 } := by
    rw [firings_saveEvents, List.append_nil]
    exact h.saveAll ready sound paths
  cases next with
  | save path => exact saved [path]
  | saves paths => exact saved paths
  | warmUp root => exact saved _
  | force path times =>
    refine unsaved (untimed_forceTimesEvents s path times) ?_ ?_ ?_
    · exact (run_forceTimes sound path times).settings_eq
    · cases times with
      | zero => rfl
      | succ n => exact timersOf_forceTimes (unforced path n rfl) (n + 1)
    · exact Nat.le_of_eq (congrArg World.clock (forceTimes_world s path times)).symm
  | waitIdle => exact h.waitIdle sound
  | shutdown => exact absurd rfl other
  | advance millis =>
    exact unsaved (by simp [actEvents, Event.isTimed]) rfl rfl (Nat.le_add_right _ _)
  | get | all | hold | release | subscribe | updates | edit =>
    exact unsaved (by simp [actEvents, Event.isTimed]) rfl rfl (Nat.le_refl _)

theorem Tracks.step (h : Tracks key debounce saves fired s) (sound : s.coordinator.Sound)
    (ready : Ready key turn saves s) {next : Step} (other : next ≠ .shutdown)
    (unforced : ∀ path n, next = .force path (n + 1) → (s.world.key path).same key = false) :
    Tracks key debounce (saves ++ (arrivalTimes key (s.stepEvents next)).map (turn, ·))
      (fired ++ firings key (s.stepEvents next)) (s.step next).2 := by
  have acted := h.act sound ready other unforced
  have settled := acted.settle ((run_act sound next).sound sound)
  unfold stepEvents
  rw [arrivalTimes_append, arrivalTimes_settleEvents, List.append_nil, firings_append,
    ← List.append_assoc]
  exact settled

theorem step_lt_length {logs : List (List Event)} {save : Nat × Nat}
    (h : save ∈ arrivals key logs) :
    save.1 < logs.length := by
  obtain ⟨⟨log, n⟩, there, times⟩ := List.mem_flatMap.1 h
  obtain ⟨time, -, rfl⟩ := List.mem_map.1 times
  have := List.mem_zipIdx there
  simp at this
  omega

/-- The arrivals and firings of a file in a session tell its timer, which is not due. -/
theorem tracks_after (world : World) (settings : Settings) (key : Path) {steps : List Step}
    (never : .shutdown ∉ steps)
    (unforced : ∀ path n, .force path (n + 1) ∈ steps → (world.key path).same key = false) :
    let start := Session.new world settings
    Tracks key settings.debounce (arrivals key (start.logs steps))
        (firings key (start.logs steps).flatten) (start.after steps) ∧
      ∀ t ∈ (start.after steps).coordinator.timersOf key,
        (start.after steps).world.clock < t.due := by
  intro start
  induction steps using List.reverseRecOn with
  | nil =>
    refine ⟨⟨rfl, .nil, ?_, rfl, ?_, ?_⟩, ?_⟩
    · simp [arrivals, logs]
    · simp [firings, logs]
    · simp [arrivals, logs]
    · simp [start, after, Session.new, Coordinator.new, Coordinator.timersOf]
  | append_singleton steps next ih =>
    simp only [List.mem_append, List.mem_singleton, not_or] at never unforced
    obtain ⟨tracks, late⟩ := ih never.1 fun path n there => unforced path n (.inl there)
    have run := run_after (sound_new world settings) steps
    have sound := run.sound (sound_new world settings)
    -- A step begins where the one before has settled, so no timer is due and all saves are of
    -- earlier steps.
    have ready : Ready key (start.logs steps).length (arrivals key (start.logs steps))
        (start.after steps) := by
      refine ⟨fun t ht => .inl (late t ht), ?_⟩
      intro _ last isLast
      exact Nat.ne_of_lt (step_lt_length (List.mem_of_getLast? isLast))
    have step := tracks.step sound ready (Ne.symm never.2) (by
      intro path n this
      rw [run.key_eq]
      exact unforced path n (.inr this.symm))
    rw [logs_concat, after_concat, arrivals_concat, List.flatten_append, List.flatten_singleton,
      firings_append]
    exact ⟨step, clock_lt_due_settle ((run_act sound next).sound sound)⟩

end Session

/-! ## Computations -/

namespace Event

/-- Whether a computation of the file starts in this event, by a timer or by force. -/
def startsOf (key : Path) : Event → Bool
  | fired timer _ => timer.key.same key
  | forced _ k => k.same key
  | _ => false

/-- Whether a computation of the file finishes in this event. -/
def endsOf (key : Path) : Event → Bool
  | finished _ k _ _ => k.same key
  | _ => false

end Event

theorem Coordinator.Moves.count_jobs {w : World} {c c' : Coordinator} {e : Event}
    (h : Moves w c e c') (sound : c.Sound) (key : Path) :
    c'.jobs.countP (·.key.same key) + (e.endsOf key).toNat =
      c.jobs.countP (·.key.same key) + (e.startsOf key).toNat := by
  have starts (k : Path) (origin : JobOrigin) :
      ((c.cancel k).start k origin).jobs.countP (·.key.same key) =
        c.jobs.countP (·.key.same key) + (k.same key).toNat := by
    cases same : k.same key <;> simp [start, cancel, same]
  cases h with
  | save path => simp [Event.endsOf, Event.startsOf]
  | force path => exact starts _ _
  | refuse | shutdown => rfl
  | fire t armed =>
    rw [fire_of_mem armed]
    exact starts _ _
  | read j =>
    have same : ((fun job : Job => job.key.same key) ∘ fun job : Job =>
        if job.number = j.number ∧ job.result.isNone then
          { job with result := some (w.measure job.key) }
        else job) = fun job => job.key.same key := by
      funext job
      simp only [Function.comp_apply]
      split_ifs <;> rfl
    simp only [readFiles, List.countP_map, same]
    rfl
  | finish j bundle started read =>
    rw [finish_of_mem sound started read, store_jobs, (sound.perm_leave started).countP_eq]
    cases same : j.key.same key <;> simp [Event.endsOf, Event.startsOf, same]

namespace Session

variable {key : Path} {log : List Event} {s t : Session}

/-- Every computation of a file that started has finished or is under way. -/
theorem Run.count_jobs (run : Run s log t) (sound : s.coordinator.Sound) (key : Path) :
    log.countP (·.endsOf key) + t.coordinator.jobs.countP (·.key.same key) =
      log.countP (·.startsOf key) + s.coordinator.jobs.countP (·.key.same key) := by
  induction run with
  | start => rfl
  | @move log t u e before last ih =>
    have step : u.coordinator.jobs.countP (·.key.same key) + (e.endsOf key).toNat =
        t.coordinator.jobs.countP (·.key.same key) + (e.startsOf key).toNat := by
      obtain ⟨move, -⟩ | ⟨outside, same⟩ := last.cases
      · exact move.count_jobs (before.sound sound) key
      · rw [same]
        cases e <;> simp_all [Event.isOutside, Event.endsOf, Event.startsOf]
    rw [List.countP_append, List.countP_append]
    cases ends : e.endsOf key <;> cases starts : e.startsOf key <;>
      simp only [ends, starts, Bool.toNat_true, Bool.toNat_false,
        List.countP_singleton] at step ⊢ <;>
      simp only [if_true, Bool.false_eq_true, if_false] <;> omega

/-- In a session that does not force the file, its computations are those of its timers. -/
theorem countP_startsOf (world : World) (settings : Settings) (key : Path) {steps : List Step}
    (unforced : ∀ path n, .force path (n + 1) ∈ steps → (world.key path).same key = false) :
    let log := ((Session.new world settings).logs steps).flatten
    log.countP (·.startsOf key) = (firings key log).length := by
  intro log
  unfold firings
  rw [List.length_filterMap_eq_countP]
  apply List.countP_congr
  intro e he
  cases e with
  | fired timer clock =>
    cases same : timer.key.same key <;> simp [Event.startsOf, Event.firingOf?, same]
  | forced path k =>
    obtain ⟨n, asked, rfl⟩ := forced_of_mem_logs (sound_new world settings) he
    have other : ((Session.new world settings).world.key path).same key = false :=
      unforced path n asked
    simp [Event.startsOf, Event.firingOf?, other]
  | _ => simp [Event.startsOf, Event.firingOf?]

/-! ## The law -/

variable {debounce : Nat} {saves : List (Nat × Nat)} {fired : List (Timer × Nat)}

/-- The timers that have fired are those of the bursts that are over. -/
theorem Tracks.fired_dues (h : Tracks key debounce saves fired s) (sound : s.coordinator.Sound)
    (late : ∀ t ∈ s.coordinator.timersOf key, s.world.clock < t.due) :
    fired.map (·.1.due) = earlierDues debounce saves ++
      (saves.getLast?.toList.filter (·.2 + debounce ≤ s.world.clock)).map (·.2 + debounce) := by
  rcases sound.timersOf_cases key with none_left | ⟨t, only⟩
  · have dues := h.dues
    rw [none_left, List.map_nil, List.append_nil] at dues
    rw [dues]
    cases isLast : saves.getLast? with
    | none => rfl
    | some last => simp [h.expired none_left last isLast]
  · obtain ⟨last, isLast, due, before⟩ := h.of_timer only
    have waits := late t (by simp [only])
    have : ¬ last.2 + debounce ≤ s.world.clock := by omega
    simp [before, isLast, this]

theorem Tracks.length_fired (h : Tracks key debounce saves fired s) (sound : s.coordinator.Sound)
    (late : ∀ t ∈ s.coordinator.timersOf key, s.world.clock < t.due) :
    fired.length =
      ((saves.zip saves.tail).countP fun (first, next) => apart debounce first next) +
        (if ∃ last ∈ saves.getLast?, last.2 + debounce ≤ s.world.clock then 1 else 0) := by
  have count := congrArg List.length (h.fired_dues sound late)
  rw [List.length_map, List.length_append, length_earlierDues, List.length_map] at count
  rw [count]
  congr 1
  cases saves.getLast? with
  | none => simp
  | some last => by_cases expired : last.2 + debounce ≤ s.world.clock <;> simp [expired]

theorem Tracks.fired_of_one_burst (h : Tracks key debounce saves fired s)
    (sound : s.coordinator.Sound)
    (late : ∀ t ∈ s.coordinator.timersOf key, s.world.clock < t.due) {last : Nat × Nat}
    (isLast : saves.getLast? = some last) (expired : last.2 + debounce ≤ s.world.clock)
    (together : ∀ pair ∈ saves.zip saves.tail, apart debounce pair.1 pair.2 = false) :
    ∃ timer clock, fired = [(timer, clock)] ∧ last.2 + debounce ≤ clock := by
  have none_before : earlierDues debounce saves = [] := by
    unfold earlierDues
    rw [List.map_eq_nil_iff, List.filter_eq_nil_iff]
    intro pair hp
    simp [together pair hp]
  have dues : fired.map (·.1.due) = [last.2 + debounce] := by
    rw [h.fired_dues sound late, none_before, isLast]
    simp [expired]
  obtain ⟨⟨timer, clock⟩, rest, rfl, due, none_after⟩ := List.map_eq_cons_iff.1 dues
  obtain rfl := List.map_eq_nil_iff.1 none_after
  have onTime : timer.due ≤ clock := h.onTime (timer, clock) List.mem_cons_self
  exact ⟨timer, clock, rfl, by rw [← due]; exact onTime⟩

/-- A timer is there as long as the last burst is not over. -/
theorem Tracks.timersOf_ne_nil_iff (h : Tracks key debounce saves fired s)
    (sound : s.coordinator.Sound)
    (late : ∀ t ∈ s.coordinator.timersOf key, s.world.clock < t.due) :
    s.coordinator.timersOf key ≠ [] ↔
      ∃ last ∈ saves.getLast?, s.world.clock < last.2 + debounce := by
  rcases sound.timersOf_cases key with none_left | ⟨t, only⟩
  · refine ⟨fun some_left => absurd none_left some_left, ?_⟩
    rintro ⟨last, isLast, waits⟩
    have expired := h.expired none_left last isLast
    omega
  · obtain ⟨last, isLast, due, -⟩ := h.of_timer only
    have waits := late t (by simp [only])
    refine ⟨fun _ => ⟨last, isLast, by omega⟩, fun _ => by simp [only]⟩

/-- Which timers of a file have fired, told from the saves of it that were scheduled, and whether
one is left. Saves are pairs of a step and a time. -/
structure Debounced (key : Path) (debounce : Nat) (saves : List (Nat × Nat)) (log : List Event)
    (s : Session) : Prop where
  sorted : saves.Pairwise fun first next => first.2 ≤ next.2
  past : ∀ save ∈ saves, save.2 ≤ s.world.clock
  /-- A timer has fired for each save that the next one, in a later step, did not replace before it
  was due, and for the last save if its timer is due by now. -/
  count : (firings key log).length =
    ((saves.zip saves.tail).countP fun (first, next) => apart debounce first next) +
      (if ∃ last ∈ saves.getLast?, last.2 + debounce ≤ s.world.clock then 1 else 0)
  /-- Otherwise the timer of the last save is still there. -/
  pending : s.coordinator.timersOf key ≠ [] ↔
    ∃ last ∈ saves.getLast?, s.world.clock < last.2 + debounce
  /-- The timer of each burst was due a debounce after its last save. -/
  dues : (firings key log).map (·.1.due) = earlierDues debounce saves ++
    (saves.getLast?.toList.filter (·.2 + debounce ≤ s.world.clock)).map (·.2 + debounce)
  onTime : ∀ firing ∈ firings key log, firing.1.due ≤ firing.2
  /-- Each timer that fired started one computation, and nothing else did. -/
  computations : log.countP (·.endsOf key) + s.coordinator.jobs.countP (·.key.same key) =
    (firings key log).length
  /-- If all saves belong to one burst and it is over, one timer has fired, after the last save and
  the debounce. -/
  oneBurst : ∀ last, saves.getLast? = some last → last.2 + debounce ≤ s.world.clock →
    (∀ pair ∈ saves.zip saves.tail, apart debounce pair.1 pair.2 = false) →
      ∃ timer clock, firings key log = [(timer, clock)] ∧ last.2 + debounce ≤ clock

/-- The debounce law, for every file that a session does not force and every series of steps without
a shutdown. -/
theorem debounce_law (world : World) (settings : Settings) (path : Path) (steps : List Step)
    (never : .shutdown ∉ steps)
    (unforced : ∀ other n, .force other (n + 1) ∈ steps →
      (world.key other).same (world.key path) = false) :
    Debounced (world.key path) settings.debounce
      (arrivals (world.key path) ((Session.new world settings).logs steps))
      ((Session.new world settings).logs steps).flatten
      ((Session.new world settings).after steps) := by
  have run := run_after (sound_new world settings) steps
  have sound := run.sound (sound_new world settings)
  obtain ⟨tracks, late⟩ := tracks_after world settings (world.key path) never unforced
  constructor
  · exact tracks.sorted
  · exact tracks.past
  · exact tracks.length_fired sound late
  · exact tracks.timersOf_ne_nil_iff sound late
  · exact tracks.fired_dues sound late
  · exact tracks.onTime
  · rw [run.count_jobs (sound_new world settings), countP_startsOf world settings _ unforced]
    rfl
  · intro last isLast expired together
    exact tracks.fired_of_one_burst sound late isLast expired together

/-- Three saves, of which the first two come in one burst, in a session that forces another file. -/
theorem two_bursts_fire_once_each :
    let path := Path.ofString "A.java"
    let settings : Settings := ⟨500, 0, "java".toList, []⟩
    let start := Session.new .bare settings
    let steps : List Step := [.save path, .advance 499, .save path, .force (.ofString "B.java") 1,
      .advance 500, .save path, .advance 100]
    .shutdown ∉ steps ∧
      (∀ other n, .force other (n + 1) ∈ steps →
        (World.bare.key other).same (World.bare.key path) = false) ∧
      arrivals (World.bare.key path) (start.logs steps) = [(0, 0), (2, 499), (5, 999)] ∧
      (start.after steps).world.clock = 1099 ∧
      (firings (World.bare.key path) (start.logs steps).flatten).length = 1 ∧
      (start.after steps).coordinator.timersOf (World.bare.key path) ≠ [] := by
  intro path settings start steps
  have never : .shutdown ∉ steps := by simp [steps]
  have unforced : ∀ other n, .force other (n + 1) ∈ steps →
      (World.bare.key other).same (World.bare.key path) = false := by
    intro other n there
    obtain ⟨rfl, -⟩ : other = .ofString "B.java" ∧ n = 0 := by simpa [steps] using there
    decide
  have saves : arrivals (World.bare.key path) (start.logs steps) =
      [(0, 0), (2, 499), (5, 999)] := by
    decide
  have clock : (start.after steps).world.clock = 1099 := by decide
  have law := debounce_law .bare settings path steps never unforced
  refine ⟨never, unforced, saves, clock, law.count.trans ?_, law.pending.2 ?_⟩
  · show _ = 1
    rw [saves, clock]
    decide
  · rw [saves, clock]
    decide

end Session

end CodeGauge
