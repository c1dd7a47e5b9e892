import CodeGauge.Proofs.Coordinator.LastStore

/-!
# Computations that do not overlap

If no computation of a file reads while another one has read and not finished (`Session.Serial`),
its bundles are stored in the order in which they were read (`Session.Serial.inOrder`).

In a session this is always so. Between its steps computations may wait, but none of them has read
(`Session.Unread`), and what is read in a step is stored or discarded at once (`Session.Prompt`).
-/

namespace CodeGauge

namespace Session

variable {s t : Session} {log more : List Event} {key : Path} {c : Coordinator} {w : World}

/-- No computation of a file reads it while another has read it and not finished. -/
def Serial (key : Path) (log : List Event) : Prop :=
  ∀ before number k bundle after, log = before ++ .read number k bundle :: after →
    k.same key = true → ∀ x ∈ reads key before, ∃ k' kept, .finished x.1 k' x.2 kept ∈ before

/-- A computation finishes only once. -/
theorem Run.finished_once {world : World} {settings : Settings} {before after : List Event}
    {number : Nat} {k k' : Path} {bundle bundle' : Bundle} {kept kept' : Bool}
    (run : Run (Session.new world settings)
      (before ++ .finished number k bundle kept :: after) s) :
    .finished number k' bundle' kept' ∉ before := by
  intro earlier
  obtain ⟨t, first, second⟩ := run.split
  obtain ⟨u, last, -⟩ := second.uncons
  have gone := first.traced.gone _ _ _ _ earlier
  generalize event : Event.finished number k bundle kept = e at last
  cases last with
  | work work =>
    cases work with
    | finish j b started =>
      obtain ⟨rfl, -⟩ : number = j.number ∧ _ := by simpa using event
      exact gone j started rfl
    | _ => simp at event
  | _ => simp at event

/-- Computations that do not overlap store in the order in which they read. -/
theorem Serial.inOrder {world : World} {settings : Settings} (serial : Serial key log)
    (run : Run (Session.new world settings) log s) : InOrder key log := by
  unfold InOrder stores
  rw [pairwise_readTime_iff, isChain_filterMap_iff]
  rintro before e after ⟨number, bundle⟩ rfl found ⟨number', bundle'⟩ last
  obtain ⟨k, same, rfl⟩ := Event.storeOf?_eq_some.1 found
  obtain ⟨k', same', stored'⟩ := mem_stores.1 (List.mem_of_getLast? last)
  have once : ∀ k' bundle' kept', .finished number k' bundle' kept' ∉ before :=
    fun _ _ _ => run.finished_once
  have traced := run.traced
  obtain ⟨t, first, second⟩ := run.split
  have read' : .read number' k' bundle' ∈ before := first.traced.finished _ _ _ _ stored'
  have read : .read number k bundle ∈ before := by
    obtain ⟨u, last, -⟩ := second.uncons
    simpa using (first.move last).traced.finished number k bundle true (by simp)
  have reading : (Event.read number k bundle).isReadBy number = true := by simp [Event.isReadBy]
  have reading' : (Event.read number' k' bundle').isReadBy number' = true := by
    simp [Event.isReadBy]
  obtain ⟨start, rest, rfl⟩ := List.append_of_mem read'
  rw [List.append_assoc, List.cons_append] at traced serial ⊢
  rw [traced.readTime_eq reading']
  rcases List.mem_append.1 read with earlier | later
  · -- It read first, so it had finished before the other read, and cannot finish again.
    have read_first := mem_reads.2 ⟨k, same, earlier⟩
    obtain ⟨_, _, done⟩ := serial _ _ _ _ _ rfl same' _ read_first
    exact absurd (List.mem_append_left _ done) (once _ _ _)
  · rcases List.mem_cons.1 later with this | later
    · obtain ⟨rfl, -⟩ : number = number' ∧ _ := by simpa using this
      exact absurd stored' (once _ _ _)
    · obtain ⟨between, rest, rfl⟩ := List.append_of_mem later
      have shape : start ++ .read number' k' bundle' :: (between ++ .read number k bundle :: rest ++
          .finished number k bundle true :: after) =
          (start ++ .read number' k' bundle' :: between) ++ .read number k bundle :: (rest ++
            .finished number k bundle true :: after) := by simp
      rw [shape] at traced ⊢
      rw [traced.readTime_eq reading]
      simp

/-! ## Sessions -/

/-- No computation has read the files yet. -/
def Unread (c : Coordinator) : Prop := ∀ j ∈ c.jobs, j.result = none

theorem Unread.start (h : Unread c) (key : Path) (origin : JobOrigin) :
    Unread (c.start key origin) := by
  intro j hj
  rcases Coordinator.mem_start_jobs.1 hj with old | rfl
  · exact h j old
  · rfl

theorem Unread.complete (h : Unread c) (w : World) (number : Nat) :
    Unread (c.complete w number) := by
  intro j hj
  rw [Coordinator.complete_jobs, Coordinator.mem_leave_jobs] at hj
  exact h j hj.1

theorem invariant_unread : Invariant Unread where
  save c w path h := by
    unfold Unread
    rwa [Coordinator.save_jobs]
  fire c key generation h := by
    unfold Coordinator.fire
    split_ifs
    · exact Unread.start (c := c.cancel key) h _ _
    · exact h
  complete c w number h := h.complete w number
  force c w path h := by
    unfold Coordinator.force
    split_ifs
    · exact h
    · exact (Unread.start (c := c.cancel _) h _ _).complete _ _
  shutdown c h := h

theorem unread_after (world : World) (settings : Settings) (steps : List Step) :
    Unread ((Session.new world settings).after steps).coordinator :=
  invariant_unread.after (by simp [Unread, Session.new, Coordinator.new]) steps

/-- The computations of a file do not overlap, and none has read it and not finished. -/
structure Tidy (key : Path) (log : List Event) : Prop where
  serial : Serial key log
  closed : ∀ x ∈ reads key log, ∃ k kept, .finished x.1 k x.2 kept ∈ log

/-- Moreover, what is read is stored before the shutdown and discarded after it. -/
structure Prompt (key : Path) (down : Bool) (log : List Event) : Prop extends Tidy key log where
  stored : stores key log = if down then [] else reads key log

variable {down : Bool}

theorem Tidy.append (h : Tidy key log) (h' : Tidy key more) : Tidy key (log ++ more) := by
  have finished {x : Nat × Bundle} (hx : x ∈ reads key log) (rest : List Event) :
      ∃ k kept, .finished x.1 k x.2 kept ∈ log ++ rest := by
    obtain ⟨k, kept, done⟩ := h.closed x hx
    exact ⟨k, kept, List.mem_append_left _ done⟩
  have later {before after : List Event} {number : Nat} {k : Path} {bundle : Bundle}
      (split : more = before ++ .read number k bundle :: after) (same : k.same key = true) :
      ∀ x ∈ reads key (log ++ before), ∃ k' kept, .finished x.1 k' x.2 kept ∈ log ++ before := by
    intro x hx
    rw [reads_append] at hx
    rcases List.mem_append.1 hx with old | new
    · exact finished old before
    · obtain ⟨k', kept, done⟩ := h'.serial _ _ _ _ _ split same x new
      exact ⟨k', kept, List.mem_append_right _ done⟩
  constructor
  · intro before number k bundle after split same
    rcases List.append_eq_append_iff.1 split with ⟨rest, rfl, there⟩ | ⟨rest, whole, there⟩
    · exact later there same
    · rcases List.cons_eq_append_iff.1 there with ⟨rfl, here⟩ | ⟨rest, rfl, rfl⟩
      · rw [List.append_nil] at whole
        subst whole
        have here : more = [] ++ .read number k bundle :: after := here
        simpa using later here same
      · exact h.serial _ _ _ _ _ whole same
  · intro x hx
    rw [reads_append] at hx
    rcases List.mem_append.1 hx with old | new
    · exact finished old more
    · obtain ⟨k, kept, done⟩ := h'.closed x new
      exact ⟨k, kept, List.mem_append_right _ done⟩

theorem Prompt.append (h : Prompt key down log) (h' : Prompt key down more) :
    Prompt key down (log ++ more) where
  toTidy := h.toTidy.append h'.toTidy
  stored := by
    rw [stores_append, reads_append, h.stored, h'.stored]
    split_ifs <;> rfl

theorem prompt_of_quiet (quiet : ∀ e ∈ log, e.isWork = false) : Prompt key down log := by
  have none_read : reads key log = [] := by
    unfold reads
    rw [List.filterMap_eq_nil_iff]
    intro e he
    have := quiet e he
    cases e <;> simp_all [Event.isWork, Event.readOf?]
  have none_stored : stores key log = [] := by
    unfold stores
    rw [List.filterMap_eq_nil_iff]
    intro e he
    have := quiet e he
    cases e <;> simp_all [Event.isWork, Event.storeOf?]
  refine ⟨⟨?_, by simp [none_read]⟩, by rw [none_read, none_stored, ite_self]⟩
  rintro before number k bundle after rfl
  simpa [Event.isWork] using quiet (.read number k bundle) (by simp)

theorem Prompt.cons (h : Prompt key down log) {e : Event} (quiet : e.isWork = false) :
    Prompt key down (e :: log) := by
  have first : Prompt key down [e] := prompt_of_quiet (by simpa using quiet)
  exact first.append h

theorem prompt_completeEvents {job : Job} (unread : job.result = none) (w : World) :
    Prompt key down (job.completeEvents w down) := by
  unfold Job.completeEvents
  rw [unread]
  refine ⟨⟨?_, ?_⟩, ?_⟩
  · intro before number k bundle after split same x hx
    rcases List.cons_eq_append_iff.1 split with ⟨rfl, -⟩ | ⟨rest, rfl, there⟩
    · simp [reads] at hx
    · simp [List.cons_eq_append_iff] at there
  · rintro ⟨number, bundle⟩ hx
    obtain ⟨k, -, there⟩ := mem_reads.1 hx
    obtain ⟨rfl, rfl, rfl⟩ : number = job.number ∧ k = job.key ∧ bundle = w.measure job.key := by
      simpa using there
    exact ⟨job.key, !down, by simp⟩
  · unfold stores reads
    cases down <;> by_cases same : job.key.same key = true <;>
      simp [List.filterMap_cons, Event.readOf?, Event.storeOf?, same]

theorem prompt_saveEvents (c : Coordinator) (w : World) (paths : List Path) :
    Prompt key down (c.saveEvents w paths) := by
  apply prompt_of_quiet
  induction paths generalizing c with
  | nil => simp [Coordinator.saveEvents]
  | cons path rest ih => simpa [Coordinator.saveEvents, Event.isWork] using ih _

theorem prompt_settleEvents (unread : Unread s.coordinator) :
    Prompt key s.coordinator.shutDown s.settleEvents := by
  unfold settleEvents
  refine Prompt.append (prompt_of_quiet ?_) ?_
  · intro e he
    obtain ⟨t, -, rfl⟩ := List.mem_map.1 he
    rfl
  split_ifs
  · exact prompt_of_quiet (by simp)
  · have started := invariant_unread.fireDue unread
    unfold Unread at started
    generalize s.fireDue.coordinator.jobs = jobs at started
    induction jobs with
    | nil => exact prompt_of_quiet (by simp)
    | cons job rest ih =>
      rw [List.flatMap_cons]
      refine (prompt_completeEvents (started job List.mem_cons_self) _).append (ih ?_)
      exact fun j hj => started j (List.mem_cons_of_mem _ hj)

theorem prompt_forceEvents (c : Coordinator) (w : World) (path : Path) :
    Prompt key c.shutDown (c.forceEvents w path) := by
  unfold Coordinator.forceEvents
  cases c.shutDown with
  | true => exact prompt_of_quiet (by simp [Event.isWork])
  | false =>
    have completes : Prompt key false
        (Job.completeEvents ⟨c.nextJob, w.key path, .forced, none⟩ w false) :=
      prompt_completeEvents rfl w
    exact completes.cons rfl

theorem prompt_forceTimesEvents (s : Session) (path : Path) (times : Nat) :
    Prompt key s.coordinator.shutDown (s.forceTimesEvents path times) := by
  induction times generalizing s with
  | zero => exact prompt_of_quiet (by simp [forceTimesEvents])
  | succ n ih =>
    have further := ih { s with coordinator := (s.coordinator.force s.world path).2 }
    rw [Coordinator.force_shutDown] at further
    exact (prompt_forceEvents _ _ _).append further

theorem settle_shutDown (sound : s.coordinator.Sound) :
    s.settle.coordinator.shutDown = s.coordinator.shutDown :=
  (run_settle sound).shutDown_eq (shutDown_not_mem_settleEvents s)

theorem prompt_waitIdleEvents (sound : s.coordinator.Sound) (unread : Unread s.coordinator) :
    Prompt key s.coordinator.shutDown s.waitIdleEvents := by
  have released : Unread { s with held := false }.coordinator := unread
  have first : Prompt key s.coordinator.shutDown { s with held := false }.settleEvents :=
    prompt_settleEvents released
  have still : { s with held := false }.settle.coordinator.shutDown = s.coordinator.shutDown :=
    settle_shutDown sound
  have second : Prompt key { s with held := false }.settle.coordinator.shutDown
      { s with held := false }.settle.skipToLast.settleEvents :=
    prompt_settleEvents (s := { s with held := false }.settle.skipToLast)
      (invariant_unread.settle released)
  rw [still] at second
  exact (first.cons rfl).append (second.cons rfl)

theorem prompt_actEvents (sound : s.coordinator.Sound) (unread : Unread s.coordinator)
    (next : Step) : Prompt key s.coordinator.shutDown (s.actEvents next) := by
  cases next with
  | save path => exact prompt_saveEvents _ _ _
  | saves paths => exact prompt_saveEvents _ _ _
  | force path times => exact prompt_forceTimesEvents s path times
  | warmUp root => exact prompt_saveEvents _ _ _
  | waitIdle => exact prompt_waitIdleEvents sound unread
  | get | all | advance | hold | release | shutdown | subscribe | updates | edit =>
    exact prompt_of_quiet (by simp [actEvents, Event.isWork])

theorem prompt_stepEvents (sound : s.coordinator.Sound) (unread : Unread s.coordinator)
    {next : Step} (other : next ≠ .shutdown) :
    Prompt key s.coordinator.shutDown (s.stepEvents next) := by
  have settles : Prompt key (s.act next).2.coordinator.shutDown (s.act next).2.settleEvents :=
    prompt_settleEvents (invariant_unread.act unread next)
  have never : .shutDown ∉ s.actEvents next :=
    fun there => shutDown_not_mem_stepEvents s other (List.mem_append_left _ there)
  rw [(run_act sound next).shutDown_eq never] at settles
  exact (prompt_actEvents sound unread next).append settles

theorem tidy_stepEvents (sound : s.coordinator.Sound) (unread : Unread s.coordinator) (key : Path)
    (next : Step) : Tidy key (s.stepEvents next) := by
  by_cases last : next = .shutdown
  · subst last
    have settles : Prompt key true (s.act .shutdown).2.settleEvents :=
      prompt_settleEvents (s := (s.act .shutdown).2) unread
    have step : Prompt key true (s.stepEvents .shutdown) := settles.cons rfl
    exact step.toTidy
  · exact (prompt_stepEvents sound unread last).toTidy

/-- In a session the computations of a file do not overlap. -/
theorem tidy_logs (world : World) (settings : Settings) (key : Path) (steps : List Step) :
    Tidy key ((Session.new world settings).logs steps).flatten := by
  induction steps using List.reverseRecOn with
  | nil =>
    have quiet : Prompt key false [] := prompt_of_quiet (by simp)
    exact quiet.toTidy
  | append_singleton steps next ih =>
    have sound := (run_after (sound_new world settings) steps).sound (sound_new world settings)
    rw [logs_concat, List.flatten_append, List.flatten_singleton]
    exact ih.append (tidy_stepEvents sound (unread_after world settings steps) key next)

/-- Before the shutdown a session has stored all that was read. -/
theorem prompt_logs (world : World) (settings : Settings) (key : Path) {steps : List Step}
    (never : .shutdown ∉ steps) :
    Prompt key false ((Session.new world settings).logs steps).flatten := by
  induction steps using List.reverseRecOn with
  | nil => exact prompt_of_quiet (by simp [logs])
  | append_singleton steps next ih =>
    simp only [List.mem_append, List.mem_singleton, not_or] at never
    have run := run_after (sound_new world settings) steps
    have up := run.shutDown_eq (shutDown_not_mem_logs _ never.1)
    have step : Prompt key ((Session.new world settings).after steps).coordinator.shutDown _ :=
      prompt_stepEvents (run.sound (sound_new world settings)) (unread_after world settings steps)
        (Ne.symm never.2)
    rw [up] at step
    rw [logs_concat, List.flatten_append, List.flatten_singleton]
    exact (ih never.1).append step

end Session

end CodeGauge
