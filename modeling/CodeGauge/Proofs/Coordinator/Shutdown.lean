import CodeGauge.Proofs.Coordinator.Log

/-!
# The shutdown is final

After the shutdown a coordinator refuses all work, and the computations that are still under way are
discarded one by one as they finish. `Session.StaysShut` says what a run from there leaves as it was
and how the counters account for the rest.

* `StaysShut.moves`: what one move does after the shutdown;
* `shutdown_is_final`: what any run and any steps of a session do after the shutdown.
-/

namespace CodeGauge

/-! ## Refusals -/

namespace Coordinator

variable {c : Coordinator}

theorem save_of_down (down : c.shutDown = true) (w : World) (path : Path) :
    c.save w path = (.shutDown, c) := by
  unfold save
  rw [if_pos down]

theorem force_of_down (down : c.shutDown = true) (w : World) (path : Path) :
    c.force w path = (none, c) := by
  unfold force
  rw [if_pos down]

theorem saveAll_of_down (down : c.shutDown = true) (w : World) (paths : List Path) :
    c.saveAll w paths = (paths.map fun _ => .shutDown, c) := by
  induction paths with
  | nil => rfl
  | cons path rest ih =>
    unfold saveAll
    rw [save_of_down down]
    simp only [ih, List.map_cons]

theorem warmUp_of_down (down : c.shutDown = true) (w : World) (root : Path) :
    c.warmUp w root = (0, c) := by
  simp only [warmUp, saveAll_of_down down]
  rw [List.count_eq_zero.2]
  simp

/-- Whether a coordinator refuses all work: saves, forced computations and warm-ups. -/
structure Refuses (c : Coordinator) : Prop where
  save : ∀ w path, (c.save w path).1 = .shutDown
  force : ∀ w path, (c.force w path).1 = none
  warmUp : ∀ w root, (c.warmUp w root).1 = 0

theorem Refuses.of_down (down : c.shutDown = true) : c.Refuses where
  save w path := by rw [save_of_down down]
  force w path := by rw [force_of_down down]
  warmUp w root := by rw [warmUp_of_down down]

theorem readFiles_numbers (c : Coordinator) (w : World) (number : Nat) :
    (c.readFiles w number).jobs.map (·.number) = c.jobs.map (·.number) := by
  unfold readFiles
  rw [List.map_map]
  apply List.map_congr_left
  intro job _
  simp only [Function.comp_apply]
  split_ifs <;> rfl

end Coordinator

/-! ## After the shutdown -/

namespace Event

/-- The number of the computation that finishes in an event. -/
def finisher? : Event → Option Nat
  | finished number _ _ _ => some number
  | _ => none

/-- Whether an event may come after the shutdown: a save is refused, no computation starts, whether
by a timer or by force, and one that finishes does not keep its bundle. -/
def isRefusal : Event → Bool
  | saved _ _ outcome _ => outcome = .shutDown
  | forced _ _ | fired _ _ => false
  | finished _ _ _ kept => !kept
  | _ => true

end Event

namespace Session

/-- The computations that finish in a log. -/
def finishers (log : List Event) : List Nat := log.filterMap Event.finisher?

/-- What a run from a session that is shut down leaves as it was, and what becomes of the
computations that are under way. -/
structure StaysShut (s : Session) (log : List Event) (t : Session) : Prop where
  down : t.coordinator.shutDown = true
  timers : t.coordinator.timers = []
  cache : t.coordinator.cache = s.coordinator.cache
  published : t.coordinator.published = s.coordinator.published
  scheduled : t.coordinator.stats.scheduled = s.coordinator.stats.scheduled
  ignoredFresh : t.coordinator.stats.ignoredFresh = s.coordinator.stats.ignoredFresh
  refused : ∀ e ∈ log, e.isRefusal = true
  /-- The computations that were under way have finished, each once, or are still under way. -/
  underWay : (s.coordinator.jobs.map (·.number)).Perm
    (finishers log ++ t.coordinator.jobs.map (·.number))
  /-- Each that finished was counted as a computation. -/
  computations : t.coordinator.stats.computations =
    s.coordinator.stats.computations + (finishers log).length
  /-- Each that finished was counted as discarded. -/
  discarded : t.coordinator.stats.discarded =
    s.coordinator.stats.discarded + (finishers log).length

variable {s t u : Session} {e : Event} {log : List Event}

theorem StaysShut.start (sound : s.coordinator.Sound) (down : s.coordinator.shutDown = true) :
    StaysShut s [] s where
  down := down
  timers := sound.quiet down
  cache := rfl
  published := rfl
  scheduled := rfl
  ignoredFresh := rfl
  refused := by simp
  underWay := List.Perm.refl _
  computations := rfl
  discarded := rfl

/-- A move in which no computation finishes adds nothing. -/
theorem StaysShut.append (h : StaysShut s log t) (refusal : e.isRefusal = true)
    (goesOn : e.finisher? = none) (down : u.coordinator.shutDown = true)
    (timers : u.coordinator.timers = []) (cache : u.coordinator.cache = t.coordinator.cache)
    (published : u.coordinator.published = t.coordinator.published)
    (stats : u.coordinator.stats = t.coordinator.stats)
    (numbers : u.coordinator.jobs.map (·.number) = t.coordinator.jobs.map (·.number)) :
    StaysShut s (log ++ [e]) u := by
  have none_new : finishers (log ++ [e]) = finishers log := by simp [finishers, goesOn]
  constructor
  · exact down
  · exact timers
  · rw [cache, h.cache]
  · rw [published, h.published]
  · rw [stats, h.scheduled]
  · rw [stats, h.ignoredFresh]
  · intro f hf
    rcases List.mem_append.1 hf with old | new
    · exact h.refused f old
    · rw [List.mem_singleton.1 new]
      exact refusal
  · rw [none_new, numbers]
    exact h.underWay
  · rw [stats, none_new, h.computations]
  · rw [stats, none_new, h.discarded]

/-- A computation that finishes is counted twice, once as discarded, and leaves all else alone. -/
theorem StaysShut.finish (h : StaysShut s log t) (sound : t.coordinator.Sound) {j : Job}
    (started : j ∈ t.coordinator.jobs) {bundle : Bundle} (read : j.result = some bundle) :
    StaysShut s (log ++ [.finished j.number j.key bundle (!t.coordinator.shutDown)])
      { t with coordinator := t.coordinator.finish j.number } := by
  rw [Coordinator.finish_of_mem sound started read,
    Coordinator.store_of_down (c := t.coordinator.leave j.number) h.down, h.down, Bool.not_true]
  have one_new : finishers (log ++ [.finished j.number j.key bundle false]) =
      finishers log ++ [j.number] := by
    simp [finishers, Event.finisher?]
  constructor
  · exact h.down
  · exact h.timers
  · exact h.cache
  · exact h.published
  · exact h.scheduled
  · exact h.ignoredFresh
  · intro f hf
    rcases List.mem_append.1 hf with old | new
    · exact h.refused f old
    · rw [List.mem_singleton.1 new]
      rfl
  · have left := (sound.perm_leave started).map (·.number)
    rw [one_new, List.append_assoc]
    exact h.underWay.trans (left.append_left (finishers log))
  · have counted := h.computations
    rw [one_new, List.length_append, List.length_singleton]
    simp only [Coordinator.leave]
    omega
  · have counted := h.discarded
    rw [one_new, List.length_append, List.length_singleton]
    simp only [Coordinator.leave]
    omega

/-- What one move does after the shutdown. -/
theorem StaysShut.moves (h : StaysShut s log t) (sound : t.coordinator.Sound) (move : Moves t e u) :
    StaysShut s (log ++ [e]) u := by
  cases move with
  | work work =>
    cases work with
    | save path =>
      rw [Coordinator.save_of_down h.down]
      exact h.append rfl rfl h.down h.timers rfl rfl rfl rfl
    | force path up => simp [h.down] at up
    | refuse path => exact h.append rfl rfl h.down h.timers rfl rfl rfl rfl
    | fire timer armed => simp [h.timers] at armed
    | read j =>
      exact h.append rfl rfl h.down h.timers rfl rfl rfl (Coordinator.readFiles_numbers _ _ _)
    | finish j bundle started read => exact h.finish sound started read
    | shutdown => exact h.append rfl rfl rfl rfl rfl rfl rfl rfl
  | wait | date | edit | hold | subscribe | drain =>
    exact h.append rfl rfl h.down h.timers rfl rfl rfl rfl

theorem Run.staysShut (run : Run s log t) (sound : s.coordinator.Sound)
    (down : s.coordinator.shutDown = true) : StaysShut s log t := by
  induction run with
  | start => exact .start sound down
  | move before last ih => exact ih.moves (before.sound sound) last

/-- What was shut down stays so. -/
theorem Run.shutDown_of_mem (run : Run s log t) (ran : .shutDown ∈ log) :
    t.coordinator.shutDown = true := by
  induction run with
  | start => simp at ran
  | @move log t u e before last ih =>
    by_cases now : e = .shutDown
    · subst now
      cases last with
      | work work => cases work; rfl
    · have earlier : .shutDown ∈ log := by
        simpa [Ne.symm now] using ran
      rw [last.shutDown_eq now, ih earlier]

/-- Whatever happens after the shutdown, in any order and for however long: the cache stays as it
was and nothing is published, saves, forced computations and warm-ups are refused, there are no
timers, and each computation that was under way is counted and discarded when it finishes. -/
theorem shutdown_is_final (world : World) (settings : Settings) {past : List Event} {s : Session}
    (reached : Run (Session.new world settings) past s) (ran : .shutDown ∈ past) :
    (∀ log t, Run s log t → StaysShut s log t ∧ t.coordinator.Refuses) ∧
      ∀ steps, StaysShut s (s.logs steps).flatten (s.after steps) ∧
        (s.after steps).coordinator.Refuses := by
  have sound := reached.sound (sound_new world settings)
  have down := reached.shutDown_of_mem ran
  have all : ∀ log t, Run s log t → StaysShut s log t ∧ t.coordinator.Refuses := by
    intro log t run
    have shut := run.staysShut sound down
    exact ⟨shut, .of_down shut.down⟩
  refine ⟨all, ?_⟩
  intro steps
  exact all _ _ (run_after sound steps)

/-- A computation that is held when the shutdown comes, and then released. -/
theorem held_computation_is_discarded :
    let start := Session.new .bare .default
    let before : List Step := [.save (.ofString "A.java"), .hold, .advance 500, .shutdown]
    let steps : List Step := [.save (.ofString "A.java"), .release]
    let s := start.after before
    .shutDown ∈ (start.logs before).flatten ∧ s.coordinator.jobs.length = 1 ∧
      StaysShut s (s.logs steps).flatten (s.after steps) ∧ (s.after steps).coordinator.Refuses ∧
      (s.after steps).coordinator.stats.discarded = 1 := by
  intro start before steps s
  have ran : .shutDown ∈ (start.logs before).flatten := by
    simp [before, logs, stepEvents, actEvents]
  have final := shutdown_is_final .bare .default (run_after (sound_new _ _) before) ran
  exact ⟨ran, by decide, (final.2 steps).1, (final.2 steps).2, by decide⟩

end Session

end CodeGauge
