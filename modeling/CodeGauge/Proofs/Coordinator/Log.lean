import CodeGauge.Proofs.Coordinator.Run

/-!
# Logs of sessions

The events of each step of a session (`Session.stepEvents`), in the order in which they happen:
first those of the step itself, then those of settling. Every step is a run with its events as the
log (`Session.run_step`), so what holds of all runs holds of all sessions (`Session.run_after`).
-/

namespace CodeGauge

/-- A world where nothing has happened and nothing is but the root. -/
def World.bare : World := ⟨⟨[], [], []⟩, 0, .epoch⟩

/-! ## The events of a coordinator -/

/-- Whether an event is an order that a step gives, a forced computation or the shutdown. All other
events of the coordinator come about by themselves or by saves. -/
def Event.isOrder : Event → Bool
  | forced _ _ | refused _ | shutDown => true
  | _ => false

/-- The events of completing a computation, before or after the shutdown. -/
def Job.completeEvents (job : Job) (w : World) (down : Bool) : List Event :=
  match job.result with
  | none =>
    [.read job.number job.key (w.measure job.key),
      .finished job.number job.key (w.measure job.key) (!down)]
  | some bundle => [.finished job.number job.key bundle (!down)]

namespace Coordinator

/-- The events of several saves, one after the other. -/
def saveEvents (c : Coordinator) (w : World) : List Path → List Event
  | [] => []
  | path :: rest =>
    .saved path (w.key path) (c.save w path).1 w.clock :: (c.save w path).2.saveEvents w rest

/-- The events of a forced measurement. -/
def forceEvents (c : Coordinator) (w : World) (path : Path) : List Event :=
  if c.shutDown then [.refused path]
  else
    .forced path (w.key path) ::
      Job.completeEvents ⟨c.nextJob, w.key path, .forced, none⟩ w false

end Coordinator

/-! ## The events of a session -/

namespace Session

/-- The events of settling. -/
def settleEvents (s : Session) : List Event :=
  (s.coordinator.timers.filter (·.due ≤ s.world.clock)).map (.fired · s.world.clock) ++
    if s.held then []
    else s.fireDue.coordinator.jobs.flatMap (·.completeEvents s.world s.coordinator.shutDown)

/-- The events of a measurement that is forced so many times. -/
def forceTimesEvents (s : Session) (path : Path) : Nat → List Event
  | 0 => []
  | n + 1 =>
    s.coordinator.forceEvents s.world path ++
      { s with coordinator := (s.coordinator.force s.world path).2 }.forceTimesEvents path n

/-- The events of releasing everything and waiting until nothing is left to be done. -/
def waitIdleEvents (s : Session) : List Event :=
  let settled := { s with held := false }.settle
  .held false :: { s with held := false }.settleEvents ++
    .waited (settled.skipToLast.world.clock - settled.world.clock) ::
      settled.skipToLast.settleEvents

/-- The events of a step before anything settles. -/
def actEvents (s : Session) : Step → List Event
  | .save path => s.coordinator.saveEvents s.world [path]
  | .saves paths => s.coordinator.saveEvents s.world paths
  | .get _ | .all => []
  | .force path times => s.forceTimesEvents path times
  | .warmUp root =>
    s.coordinator.saveEvents s.world
      (Workspace.gather s.world.tree root s.coordinator.settings.extension
        s.coordinator.settings.excluded)
  | .advance millis => [.waited millis]
  | .waitIdle => s.waitIdleEvents
  | .hold => [.held true]
  | .release => [.held false]
  | .shutdown => [.shutDown]
  | .subscribe => [.subscribed]
  | .updates => [.drained (s.subscription.map s.updatesSince)]
  | .edit path change => [.edited path change]

/-- The events of a step and of settling after it. -/
def stepEvents (s : Session) (next : Step) : List Event :=
  s.actEvents next ++ (s.act next).2.settleEvents

/-- The session after some steps. -/
def after (s : Session) (steps : List Step) : Session :=
  steps.foldl (fun s next => (s.step next).2) s

/-- The events of some steps, a list for each step. -/
def logs (s : Session) : List Step → List (List Event)
  | [] => []
  | next :: rest => s.stepEvents next :: (s.step next).2.logs rest

theorem after_concat (s : Session) (steps : List Step) (next : Step) :
    s.after (steps ++ [next]) = ((s.after steps).step next).2 := by
  simp [after]

theorem logs_concat (s : Session) (steps : List Step) (next : Step) :
    s.logs (steps ++ [next]) = s.logs steps ++ [(s.after steps).stepEvents next] := by
  induction steps generalizing s with
  | nil => rfl
  | cons first rest ih => simp [logs, after, ih]

/-! ## What steps are made of -/

theorem forceTimes_succ (s : Session) (path : Path) (n : Nat) :
    (s.forceTimes path (n + 1)).2 =
      ({ s with coordinator := (s.coordinator.force s.world path).2 }.forceTimes path n).2 := by
  cases n <;> rfl

/-- What firing keeps, it keeps for all timers that are due. -/
theorem fireDue_induction {P : Coordinator → Prop} {s : Session} (start : P s.coordinator)
    (fire : ∀ c key generation, P c → P (c.fire key generation)) : P s.fireDue.coordinator := by
  unfold fireDue
  simp only
  generalize s.coordinator.timers.filter _ = due
  induction due using List.reverseRecOn with
  | nil => exact start
  | append_singleton due t ih =>
    rw [List.foldl_append]
    exact fire _ _ _ ih

/-- What completing keeps, settling keeps once the timers have fired. -/
theorem settle_induction {P : Coordinator → Prop} {s : Session} (start : P s.fireDue.coordinator)
    (complete : ∀ c number, P c → P (c.complete s.world number)) : P s.settle.coordinator := by
  unfold settle
  simp only
  split_ifs
  · exact start
  · unfold completeAll
    simp only
    generalize s.fireDue.coordinator.jobs = jobs
    induction jobs using List.reverseRecOn with
    | nil => exact start
    | append_singleton jobs job ih =>
      rw [List.foldl_append]
      exact complete _ _ ih

/-- What the operations of a coordinator keep, in whatever world they are done. -/
structure Invariant (P : Coordinator → Prop) : Prop where
  save : ∀ c w path, P c → P (c.save w path).2
  fire : ∀ c key generation, P c → P (c.fire key generation)
  complete : ∀ c w number, P c → P (c.complete w number)
  force : ∀ c w path, P c → P (c.force w path).2
  shutdown : ∀ c, P c → P c.shutdown

section

variable {P : Coordinator → Prop} {s : Session} (kept : Invariant P)

include kept

theorem Invariant.saveAll {c : Coordinator} (start : P c) (w : World) (paths : List Path) :
    P (c.saveAll w paths).2 := by
  induction paths generalizing c with
  | nil => exact start
  | cons path rest ih => exact ih (kept.save c w path start)

theorem Invariant.forceTimes (start : P s.coordinator) (path : Path) (times : Nat) :
    P (s.forceTimes path times).2.coordinator := by
  induction times generalizing s with
  | zero => exact start
  | succ n ih =>
    rw [forceTimes_succ]
    exact ih (kept.force _ s.world path start)

theorem Invariant.fireDue (start : P s.coordinator) : P s.fireDue.coordinator :=
  fireDue_induction start kept.fire

theorem Invariant.settle (start : P s.coordinator) : P s.settle.coordinator :=
  settle_induction (kept.fireDue start) fun c number => kept.complete c s.world number

theorem Invariant.act (start : P s.coordinator) (next : Step) : P (s.act next).2.coordinator := by
  cases next with
  | save path => exact kept.save _ _ _ start
  | saves paths => exact kept.saveAll start _ _
  | force path times => exact kept.forceTimes start path times
  | warmUp root => exact kept.saveAll start _ _
  | waitIdle =>
    have settled := kept.settle (s := { s with held := false }) start
    exact kept.settle (s := { s with held := false }.settle.skipToLast) settled
  | shutdown => exact kept.shutdown _ start
  | get | all | advance | hold | release | subscribe | updates | edit => exact start

/-- What the operations keep holds after any steps. -/
theorem Invariant.after (start : P s.coordinator) (steps : List Step) :
    P (s.after steps).coordinator := by
  induction steps using List.reverseRecOn with
  | nil => exact start
  | append_singleton steps next ih =>
    rw [after_concat]
    exact kept.settle (kept.act ih next)

end

/-! ## Steps are runs -/

theorem run_saveAll (s : Session) (paths : List Path) :
    Run s (s.coordinator.saveEvents s.world paths)
      { s with coordinator := (s.coordinator.saveAll s.world paths).2 } := by
  induction paths generalizing s with
  | nil => exact .start
  | cons path rest ih =>
    have first : Run s _ _ := .single (.work (.save path))
    exact first.trans (ih { s with coordinator := (s.coordinator.save s.world path).2 })

theorem run_complete {s : Session} (sound : s.coordinator.Sound) {job : Job}
    (started : job ∈ s.coordinator.jobs) :
    Run s (job.completeEvents s.world s.coordinator.shutDown)
      { s with coordinator := s.coordinator.complete s.world job.number } := by
  unfold Job.completeEvents Coordinator.complete
  split
  next unread =>
    have reads : Run s _ _ := .single (.work (.read job started unread))
    have read := (Coordinator.mem_readFiles_jobs sound started unread (w := s.world)).2 (.inl rfl)
    exact reads.move
      (.work (.finish { job with result := some (s.world.measure job.key) } _ read rfl))
  next bundle read =>
    rw [Coordinator.readFiles_of_read sound started read]
    exact .single (.work (.finish job bundle started read))

theorem run_force {s : Session} (sound : s.coordinator.Sound) (path : Path) :
    Run s (s.coordinator.forceEvents s.world path)
      { s with coordinator := (s.coordinator.force s.world path).2 } := by
  unfold Coordinator.forceEvents Coordinator.force
  cases down : s.coordinator.shutDown with
  | true => exact .single (.work (.refuse path down))
  | false =>
    have starts : Run s _ _ := .single (.work (.force path down))
    have completes := run_complete (starts.sound sound) (Coordinator.mem_start_jobs.2 (.inr rfl))
    have still : ((s.coordinator.cancel (s.world.key path)).start (s.world.key path)
        .forced).shutDown = false := down
    rw [still] at completes
    exact starts.trans completes

theorem run_forceTimes {s : Session} (sound : s.coordinator.Sound) (path : Path) (times : Nat) :
    Run s (s.forceTimesEvents path times) (s.forceTimes path times).2 := by
  induction times generalizing s with
  | zero => exact .start
  | succ n ih =>
    have first := run_force sound path
    rw [forceTimes_succ]
    exact first.trans (ih (first.sound sound))

/-- Timers that are there and due go off in turn. -/
theorem run_fires {s : Session} (due : List Timer)
    (armed : ∀ t ∈ due, t ∈ s.coordinator.timers ∧ t.due ≤ s.world.clock)
    (apart : due.Pairwise fun t u => t.key.same u.key = false) :
    Run s (due.map (.fired · s.world.clock))
      { s with coordinator := due.foldl (fun c t => c.fire t.key t.generation) s.coordinator } := by
  induction due generalizing s with
  | nil => exact .start
  | cons t rest ih =>
    obtain ⟨there, early⟩ := armed t List.mem_cons_self
    obtain ⟨others, apart⟩ := List.pairwise_cons.1 apart
    have first : Run s _ _ := .single (.work (.fire t there early))
    refine first.trans (ih ?_ apart)
    intro u hu
    obtain ⟨there', early'⟩ := armed u (List.mem_cons_of_mem _ hu)
    refine ⟨?_, early'⟩
    -- A timer takes only timers of its own file away.
    have kept : u ∈ (s.coordinator.cancel t.key).timers :=
      Coordinator.mem_cancel_timers.2 ⟨there', by rw [Path.same_comm]; exact others u hu⟩
    simpa [Coordinator.fire_of_mem there, Coordinator.start] using kept

/-- Computations that are there are completed in turn. -/
theorem run_completes {s : Session} (sound : s.coordinator.Sound) (jobs : List Job)
    (started : ∀ j ∈ jobs, j ∈ s.coordinator.jobs)
    (ordered : jobs.Pairwise fun i j => i.number < j.number) :
    Run s (jobs.flatMap (·.completeEvents s.world s.coordinator.shutDown))
      { s with coordinator :=
          jobs.foldl (fun c job => c.complete s.world job.number) s.coordinator } := by
  induction jobs generalizing s with
  | nil => exact .start
  | cons job rest ih =>
    obtain ⟨later, ordered⟩ := List.pairwise_cons.1 ordered
    have there := started job List.mem_cons_self
    have first := run_complete sound there
    have left := Coordinator.complete_of_mem sound there s.world
    have others : ∀ j ∈ rest, j ∈ (s.coordinator.complete s.world job.number).jobs := by
      intro j hj
      rw [left, Coordinator.store_jobs, Coordinator.mem_leave_jobs]
      exact ⟨started j (List.mem_cons_of_mem _ hj), (Nat.ne_of_lt (later j hj)).symm⟩
    have down : (s.coordinator.complete s.world job.number).shutDown = s.coordinator.shutDown := by
      rw [left, Coordinator.store_shutDown]
      rfl
    have further := ih (first.sound sound) others ordered
    rw [down] at further
    exact first.trans further

theorem run_fireDue {s : Session} (sound : s.coordinator.Sound) :
    Run s ((s.coordinator.timers.filter (·.due ≤ s.world.clock)).map (.fired · s.world.clock))
      s.fireDue := by
  refine run_fires _ ?_ (sound.apart.filter _)
  intro t ht
  simpa using ht

theorem fireDue_shutDown (s : Session) : s.fireDue.coordinator.shutDown = s.coordinator.shutDown :=
  fireDue_induction (P := fun c => c.shutDown = s.coordinator.shutDown) rfl
    fun c key generation same => (Coordinator.fire_shutDown c key generation).trans same

theorem run_settle {s : Session} (sound : s.coordinator.Sound) : Run s s.settleEvents s.settle := by
  have fires := run_fireDue sound
  have completes := run_completes (fires.sound sound) s.fireDue.coordinator.jobs (fun _ h => h)
    (fires.sound sound).ordered
  rw [fireDue_shutDown] at completes
  have held : s.fireDue.held = s.held := rfl
  unfold settleEvents settle
  simp only [held]
  split_ifs
  · rwa [List.append_nil]
  · exact fires.trans completes

theorem le_foldl_max_due (clock : Nat) (timers : List Timer) :
    clock ≤ timers.foldl (fun clock t => max clock t.due) clock := by
  induction timers generalizing clock with
  | nil => exact Nat.le_refl _
  | cons t rest ih => exact Nat.le_trans (Nat.le_max_left clock t.due) (ih _)

theorem clock_le_skipToLast (s : Session) : s.world.clock ≤ s.skipToLast.world.clock :=
  le_foldl_max_due _ _

theorem run_skipToLast (s : Session) :
    Run s [.waited (s.skipToLast.world.clock - s.world.clock)] s.skipToLast := by
  have waits : Run s _ _ :=
    .single (.wait s (s.skipToLast.world.clock - s.world.clock))
  rw [Nat.add_sub_cancel' (clock_le_skipToLast s)] at waits
  exact waits

theorem run_waitIdle {s : Session} (sound : s.coordinator.Sound) :
    Run s s.waitIdleEvents s.waitIdle := by
  have releases : Run s [.held false] { s with held := false } := .single (.hold s false)
  have settles := releases.trans (run_settle (releases.sound sound))
  have waits := settles.trans (run_skipToLast _)
  have drains := waits.trans (run_settle (waits.sound sound))
  simpa [waitIdleEvents, waitIdle] using drains

theorem run_act {s : Session} (sound : s.coordinator.Sound) (next : Step) :
    Run s (s.actEvents next) (s.act next).2 := by
  cases next with
  | save path => exact run_saveAll s [path]
  | saves paths => exact run_saveAll s paths
  | get | all => exact .start
  | force path times => exact run_forceTimes sound path times
  | warmUp root => exact run_saveAll s _
  | advance millis => exact .single (.wait s millis)
  | waitIdle => exact run_waitIdle sound
  | hold => exact .single (.hold s true)
  | release => exact .single (.hold s false)
  | shutdown => exact .single (.work .shutdown)
  | subscribe => exact .single (.subscribe s)
  | updates => exact .single (.drain s)
  | edit path change => exact .single (.edit s path change)

/-- A step of a session is a run. -/
theorem run_step {s : Session} (sound : s.coordinator.Sound) (next : Step) :
    Run s (s.stepEvents next) (s.step next).2 :=
  (run_act sound next).trans (run_settle ((run_act sound next).sound sound))

/-- Any steps of a session are a run. -/
theorem run_after {s : Session} (sound : s.coordinator.Sound) (steps : List Step) :
    Run s (s.logs steps).flatten (s.after steps) := by
  induction steps using List.reverseRecOn with
  | nil => exact .start
  | append_singleton steps next ih =>
    rw [logs_concat, after_concat, List.flatten_append, List.flatten_singleton]
    exact ih.trans (run_step (ih.sound sound) next)

/-! ## Orders -/

theorem isOrder_saveEvents (c : Coordinator) (w : World) (paths : List Path) :
    ∀ e ∈ c.saveEvents w paths, e.isOrder = false := by
  induction paths generalizing c with
  | nil => simp [Coordinator.saveEvents]
  | cons path rest ih =>
    intro e he
    rcases List.mem_cons.1 he with rfl | there
    · rfl
    · exact ih _ e there

theorem isOrder_completeEvents (job : Job) (w : World) (down : Bool) :
    ∀ e ∈ job.completeEvents w down, e.isOrder = false := by
  unfold Job.completeEvents
  split <;> simp [Event.isOrder]

theorem isOrder_settleEvents (s : Session) : ∀ e ∈ s.settleEvents, e.isOrder = false := by
  intro e he
  rcases List.mem_append.1 he with fires | completes
  · obtain ⟨t, -, rfl⟩ := List.mem_map.1 fires
    rfl
  · split_ifs at completes
    · simp at completes
    · obtain ⟨job, -, there⟩ := List.mem_flatMap.1 completes
      exact isOrder_completeEvents job _ _ e there

theorem isOrder_waitIdleEvents (s : Session) : ∀ e ∈ s.waitIdleEvents, e.isOrder = false := by
  intro e he
  rcases List.mem_append.1 he with first | second
  · rcases List.mem_cons.1 first with rfl | there
    · rfl
    · exact isOrder_settleEvents _ e there
  · rcases List.mem_cons.1 second with rfl | there
    · rfl
    · exact isOrder_settleEvents _ e there

/-- The only orders of a step that forces are its own. -/
theorem eq_of_mem_forceTimesEvents {s : Session} {path : Path} {times : Nat} {e : Event}
    (he : e ∈ s.forceTimesEvents path times) (order : e.isOrder = true) :
    e = .forced path (s.world.key path) ∧ times ≠ 0 ∨ e = .refused path := by
  induction times generalizing s with
  | zero => simp [forceTimesEvents] at he
  | succ n ih =>
    rcases List.mem_append.1 he with first | rest
    · unfold Coordinator.forceEvents at first
      split_ifs at first
      · exact .inr (List.mem_singleton.1 first)
      · rcases List.mem_cons.1 first with this | work
        · exact .inl ⟨this, Nat.succ_ne_zero n⟩
        · rw [isOrder_completeEvents _ _ _ e work] at order
          simp at order
    · rcases ih rest with ⟨this, -⟩ | this
      · exact .inl ⟨this, Nat.succ_ne_zero n⟩
      · exact .inr this

/-- The orders of a step are those it is asked to give. -/
theorem order_of_mem_stepEvents {s : Session} {next : Step} {e : Event} (he : e ∈ s.stepEvents next)
    (order : e.isOrder = true) :
    (∃ path n, next = .force path (n + 1) ∧ e = .forced path (s.world.key path)) ∨
      (∃ path, e = .refused path) ∨ (next = .shutdown ∧ e = .shutDown) := by
  have quiet {log : List Event} (h : ∀ e ∈ log, e.isOrder = false) (there : e ∈ log) : False := by
    rw [h e there] at order
    simp at order
  rcases List.mem_append.1 he with acts | settles
  · cases next with
    | save path => exact (quiet (isOrder_saveEvents _ _ _) acts).elim
    | saves paths => exact (quiet (isOrder_saveEvents _ _ _) acts).elim
    | warmUp root => exact (quiet (isOrder_saveEvents _ _ _) acts).elim
    | waitIdle => exact (quiet (isOrder_waitIdleEvents s) acts).elim
    | force path times =>
      rcases eq_of_mem_forceTimesEvents acts order with ⟨this, some_times⟩ | this
      · obtain ⟨n, rfl⟩ := Nat.exists_eq_succ_of_ne_zero some_times
        exact .inl ⟨path, n, rfl, this⟩
      · exact .inr (.inl ⟨path, this⟩)
    | shutdown => exact .inr (.inr ⟨rfl, List.mem_singleton.1 acts⟩)
    | get | all => simp [actEvents] at acts
    | advance | hold | release | subscribe | updates | edit =>
      rw [List.mem_singleton.1 acts] at order
      simp [Event.isOrder] at order
  · exact (quiet (isOrder_settleEvents _) settles).elim

theorem shutDown_not_mem_settleEvents (s : Session) : .shutDown ∉ s.settleEvents := by
  intro there
  have order := isOrder_settleEvents s _ there
  simp [Event.isOrder] at order

theorem shutDown_not_mem_stepEvents (s : Session) {next : Step} (other : next ≠ .shutdown) :
    .shutDown ∉ s.stepEvents next := by
  intro there
  rcases order_of_mem_stepEvents there rfl with ⟨_, _, -, this⟩ | ⟨_, this⟩ | ⟨this, -⟩
  · simp at this
  · simp at this
  · exact other this

/-- Only the step of that name shuts a session down. -/
theorem shutDown_not_mem_logs (s : Session) {steps : List Step} (others : .shutdown ∉ steps) :
    .shutDown ∉ (s.logs steps).flatten := by
  induction steps generalizing s with
  | nil => simp [logs]
  | cons next rest ih =>
    simp only [List.mem_cons, not_or] at others
    simp only [logs, List.flatten_cons, List.mem_append, not_or]
    exact ⟨shutDown_not_mem_stepEvents s (Ne.symm others.1), ih _ others.2⟩

/-- Only the step of that name forces a computation. -/
theorem forced_of_mem_logs {s : Session} (sound : s.coordinator.Sound) {steps : List Step}
    {path k : Path} (there : .forced path k ∈ (s.logs steps).flatten) :
    ∃ n, .force path (n + 1) ∈ steps ∧ k = s.world.key path := by
  induction steps generalizing s with
  | nil => simp [logs] at there
  | cons next rest ih =>
    simp only [logs, List.flatten_cons, List.mem_append] at there
    rcases there with now | later
    · rcases order_of_mem_stepEvents now rfl with ⟨p, n, rfl, this⟩ | ⟨_, this⟩ | ⟨-, this⟩
      · obtain ⟨rfl, rfl⟩ : path = p ∧ k = s.world.key p := by simpa using this
        exact ⟨n, List.mem_cons_self, rfl⟩
      · simp at this
      · simp at this
    · have step := run_step sound next
      obtain ⟨n, asked, this⟩ := ih (step.sound sound) later
      exact ⟨n, List.mem_cons_of_mem _ asked, by rw [this, step.key_eq]⟩

end Session

end CodeGauge
