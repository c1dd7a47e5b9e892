import CodeGauge.Proofs.Coordinator.Timers

/-!
# Timers that go off late

Every timer waits in a task of its own. When the coordinator replaces or cancels a timer, it asks
the task to stop, but the task may be past the point where it would notice. So nothing is assumed
here about when a timer goes off: once armed it may do so at any moment, and even again and again,
between any other steps (`Coordinator.Interleaved`).

* `Registered`: what links the timers of a coordinator to what has happened to it;
* `Registered.mem_iff`: a timer is there as long as it was neither superseded nor has fired;
* `superseded_timers_are_inert`: so a timer that was superseded does nothing, and none fires twice.
-/

namespace CodeGauge

namespace Coordinator

/-- What happens to a coordinator and its timers. -/
inductive Incident where
  | armed (timer : Timer)
  /-- A timer went off, and a computation started or not. -/
  | expired (timer : Timer) (started : Bool)
  | forced (key : Path)
  | shutDown
  | other
deriving DecidableEq

/-- Whether an incident supersedes a timer that was armed before: another one is armed for its file,
its file is measured by force, or all timers are dropped. -/
def Incident.supersedes (t : Timer) : Incident → Bool
  | armed u => u.key.same t.key
  | forced key => key.same t.key
  | shutDown => true
  | _ => false

/-- Steps in any order, on any files, before and after the shutdown. -/
inductive Interleaved (settings : Settings) : List Incident → Coordinator → Prop where
  | start : Interleaved settings [] (.new settings)
  | arm {log : List Incident} {c : Coordinator} (key : Path) (clock : Nat) :
      Interleaved settings log c →
      Interleaved settings
        (log ++ [.armed ⟨key, c.nextGeneration, clock + c.settings.debounce⟩]) (c.arm key clock)
  | expire {log : List Incident} {c : Coordinator} (t : Timer) (armed : .armed t ∈ log) :
      Interleaved settings log c →
      Interleaved settings
        (log ++ [.expired t (c.nextJob < (c.fire t.key t.generation).nextJob)])
        (c.fire t.key t.generation)
  | force {log : List Incident} {c : Coordinator} (key : Path) :
      Interleaved settings log c →
      Interleaved settings (log ++ [.forced key]) ((c.cancel key).start key .forced)
  | ignore {log : List Incident} {c : Coordinator} (w : World) (path : Path)
      (outcome : (c.save w path).1 ≠ .scheduled) :
      Interleaved settings log c → Interleaved settings (log ++ [.other]) (c.save w path).2
  | read {log : List Incident} {c : Coordinator} (w : World) (number : Nat) :
      Interleaved settings log c → Interleaved settings (log ++ [.other]) (c.readFiles w number)
  | finish {log : List Incident} {c : Coordinator} (number : Nat) :
      Interleaved settings log c → Interleaved settings (log ++ [.other]) (c.finish number)
  | shutdown {log : List Incident} {c : Coordinator} :
      Interleaved settings log c → Interleaved settings (log ++ [.shutDown]) c.shutdown

/-- Whether a timer was armed and superseded later. -/
def Superseded (log : List Incident) (t : Timer) : Prop :=
  ∃ before after, log = before ++ .armed t :: after ∧ ∃ e ∈ after, e.supersedes t = true

variable {log : List Incident} {c c' : Coordinator} {e : Incident} {t u : Timer}

theorem Superseded.armed_mem (h : Superseded log t) : .armed t ∈ log := by
  obtain ⟨before, after, rfl, -⟩ := h
  simp

theorem superseded_concat :
    Superseded (log ++ [e]) t ↔ Superseded log t ∨ (.armed t ∈ log ∧ e.supersedes t = true) := by
  constructor
  · rintro ⟨before, after, split, f, hf, ends⟩
    rcases List.eq_nil_or_concat after with rfl | ⟨after, last, rfl⟩
    · simp at hf
    · rw [List.concat_eq_append, ← List.cons_append, ← List.append_assoc] at split
      obtain ⟨rfl, same⟩ := List.append_inj' split rfl
      obtain rfl := List.singleton_inj.1 same
      rw [List.concat_eq_append, List.mem_append, List.mem_singleton] at hf
      rcases hf with old | rfl
      · exact .inl ⟨before, after, rfl, f, old, ends⟩
      · exact .inr ⟨by simp, ends⟩
  · rintro (⟨before, after, rfl, f, hf, ends⟩ | ⟨armed, ends⟩)
    · exact ⟨before, after ++ [e], by simp, f, List.mem_append_left _ hf, ends⟩
    · obtain ⟨before, after, rfl⟩ := List.append_of_mem armed
      exact ⟨before, after ++ [e], by simp, e, by simp, ends⟩

/-- The timers that were armed, in order. -/
def armedTimers (log : List Incident) : List Timer :=
  log.filterMap fun
    | .armed t => some t
    | _ => none

theorem mem_armedTimers : t ∈ armedTimers log ↔ .armed t ∈ log := by
  unfold armedTimers
  rw [List.mem_filterMap]
  constructor
  · rintro ⟨e, he, found⟩
    cases e <;> simp_all
  · intro armed
    exact ⟨_, armed, rfl⟩

/-- What links the timers of a coordinator to what has happened to it. -/
structure Registered (log : List Incident) (c : Coordinator) : Prop where
  apart : c.timers.Pairwise fun t u => t.key.same u.key = false
  /-- Generations grow with every timer that is armed. -/
  ordered : (armedTimers log).Pairwise fun t u => t.generation < u.generation
  below : ∀ t, .armed t ∈ log → t.generation < c.nextGeneration
  spawned : ∀ t started, .expired t started ∈ log → .armed t ∈ log
  once : ∀ t, log.count (.expired t true) ≤ 1
  mem_iff : ∀ t, t ∈ c.timers ↔
    .armed t ∈ log ∧ ¬ Superseded log t ∧ .expired t true ∉ log

theorem Registered.new (settings : Settings) : Registered [] (Coordinator.new settings) where
  apart := .nil
  ordered := .nil
  below := by simp
  spawned := by simp
  once := by simp
  mem_iff := by simp [Coordinator.new]

/-- Two timers that were armed are the same if they have the same generation. -/
theorem Registered.eq_of_generation (h : Registered log c) (ht : .armed t ∈ log)
    (hu : .armed u ∈ log) (same : t.generation = u.generation) : t = u := by
  have unique : (armedTimers log).Pairwise fun t u => t.generation = u.generation → t = u :=
    h.ordered.imp fun before same => absurd same (Nat.ne_of_lt before)
  have unique' : (armedTimers log).Pairwise (flip fun t u => t.generation = u.generation → t = u) :=
    h.ordered.imp fun before same => absurd same.symm (Nat.ne_of_lt before)
  exact unique.forall_of_forall_of_flip (fun _ _ _ => rfl) unique' (mem_armedTimers.2 ht)
    (mem_armedTimers.2 hu) same

theorem Registered.armed_of_mem (h : Registered log c) (ht : t ∈ c.timers) : .armed t ∈ log :=
  ((h.mem_iff t).1 ht).1

/-- A timer that was armed and is not there any more does nothing when it goes off. -/
theorem Registered.fire_of_not_mem (h : Registered log c) (armed : .armed t ∈ log)
    (gone : t ∉ c.timers) : c.fire t.key t.generation = c := by
  unfold fire
  rw [if_neg]
  intro found
  obtain ⟨u, hu, same⟩ := List.any_eq_true.1 found
  have generation : u.generation = t.generation := by simp_all
  rw [h.eq_of_generation (h.armed_of_mem hu) armed generation] at hu
  exact gone hu

/-! ## What one step does -/

/-- What every step does to the timers: those that the step supersedes or fires leave, all others
stay, and the one that it arms comes in with a new generation. -/
structure Registers (log : List Incident) (c : Coordinator) (e : Incident) (c' : Coordinator) :
    Prop where
  apart : c'.timers.Pairwise fun t u => t.key.same u.key = false
  grows : c.nextGeneration ≤ c'.nextGeneration
  armed : ∀ t, e = .armed t →
    t.generation = c.nextGeneration ∧ t.generation < c'.nextGeneration
  expired : ∀ t started, e = .expired t started →
    .armed t ∈ log ∧ (started = true → t ∈ c.timers)
  timers : ∀ t, t ∈ c'.timers ↔
    (t ∈ c.timers ∧ e.supersedes t = false ∧ e ≠ .expired t true) ∨ e = .armed t

theorem Registered.step (h : Registered log c) (step : Registers log c e c') :
    Registered (log ++ [e]) c' where
  apart := step.apart
  ordered := by
    unfold armedTimers
    rw [List.filterMap_append, List.pairwise_append]
    refine ⟨h.ordered, ?_, ?_⟩
    · cases e <;> simp
    · intro t ht u hu
      obtain rfl : e = .armed u := by cases e <;> simp_all
      rw [(step.armed u rfl).1]
      exact h.below t (mem_armedTimers.1 ht)
  below := by
    intro t armed
    rcases List.mem_append.1 armed with old | new
    · exact Nat.lt_of_lt_of_le (h.below t old) step.grows
    · exact (step.armed t (List.mem_singleton.1 new).symm).2
  spawned := by
    intro t started there
    rw [List.mem_append]
    left
    rcases List.mem_append.1 there with old | new
    · exact h.spawned t started old
    · exact (step.expired t started (List.mem_singleton.1 new).symm).1
  once := by
    intro t
    rw [List.count_append, List.count_singleton]
    split_ifs with now
    · -- It was still there, so it has not fired before.
      have there := (step.expired t true (by simpa using now)).2 rfl
      have := List.count_eq_zero.2 ((h.mem_iff t).1 there).2.2
      omega
    · exact h.once t
  mem_iff := by
    intro t
    rw [step.timers, h.mem_iff, superseded_concat, List.mem_append, List.mem_append,
      List.mem_singleton, List.mem_singleton]
    by_cases new : e = .armed t
    · -- A timer with a new generation was not there before.
      have first : .armed t ∉ log := by
        intro old
        have := h.below t old
        have := step.armed t new
        omega
      have unspent : .expired t true ∉ log := fun spent => first (h.spawned t true spent)
      have unbroken : ¬ Superseded log t := fun ended => first ended.armed_mem
      simp [new, first, unspent, unbroken]
    · simp only [new, Ne.symm new, or_false]
      grind

theorem Registered.arm (h : Registered log c) (key : Path) (clock : Nat) :
    Registered (log ++ [.armed ⟨key, c.nextGeneration, clock + c.settings.debounce⟩])
      (c.arm key clock) := by
  apply h.step
  constructor
  · show ((c.cancel key).timers ++ [_]).Pairwise _
    rw [List.pairwise_append]
    refine ⟨h.apart.filter _, List.pairwise_singleton _ _, ?_⟩
    intro t ht u hu
    rw [List.mem_singleton.1 hu]
    exact (mem_cancel_timers.1 ht).2
  · exact Nat.le_succ _
  · rintro t ⟨⟩
    exact ⟨rfl, Nat.lt_succ_self _⟩
  · simp
  · intro t
    rw [mem_arm_timers, Path.same_comm, @eq_comm _ t]
    simp [Incident.supersedes]

theorem Registered.expire (h : Registered log c) (armed : .armed t ∈ log) :
    Registered (log ++ [.expired t (c.nextJob < (c.fire t.key t.generation).nextJob)])
      (c.fire t.key t.generation) := by
  apply h.step
  by_cases there : t ∈ c.timers
  · have starts : c.nextJob < ((c.cancel t.key).start t.key (.timer t.generation)).nextJob :=
      Nat.lt_succ_self _
    rw [fire_of_mem there]
    constructor
    · exact h.apart.filter _
    · exact Nat.le_refl _
    · simp
    · rintro u _ ⟨⟩
      exact ⟨armed, fun _ => there⟩
    · intro u
      show u ∈ (c.cancel t.key).timers ↔ _
      rw [mem_cancel_timers]
      -- No other timer is for the same file.
      have other (hu : u ∈ c.timers) : u.key.same t.key = false ↔ t ≠ u := by
        constructor
        · rintro apart rfl
          simp at apart
        · intro ne
          by_contra same
          exact ne (eq_of_apart h.apart hu there (by simpa using same)).symm
      simpa [Incident.supersedes, starts] using other
  · rw [h.fire_of_not_mem armed there]
    constructor
    · exact h.apart
    · exact Nat.le_refl _
    · simp
    · rintro u _ ⟨⟩
      exact ⟨armed, by simp⟩
    · simp [Incident.supersedes]

/-- A step that arms no timer and fires none. -/
theorem Registered.quiet (h : Registered log c)
    (timers : c'.timers = c.timers.filter fun t => !e.supersedes t)
    (next : c'.nextGeneration = c.nextGeneration) (unarmed : ∀ t, e ≠ .armed t)
    (unexpired : ∀ t started, e ≠ .expired t started) : Registered (log ++ [e]) c' := by
  apply h.step
  constructor
  · rw [timers]
    exact h.apart.filter _
  · exact Nat.le_of_eq next.symm
  · exact fun t now => absurd now (unarmed t)
  · exact fun t started now => absurd now (unexpired t started)
  · intro t
    simp [timers, unarmed, unexpired]

/-- A step that leaves the timers alone. -/
theorem Registered.idle (h : Registered log c) (timers : c'.timers = c.timers)
    (next : c'.nextGeneration = c.nextGeneration) : Registered (log ++ [.other]) c' := by
  refine h.quiet ?_ next (by simp) (by simp)
  rw [timers, List.filter_eq_self.2]
  simp [Incident.supersedes]

/-! ## What all steps do -/

theorem Interleaved.registered {settings : Settings} (h : Interleaved settings log c) :
    Registered log c := by
  induction h with
  | start => exact .new settings
  | arm key clock _ ih => exact ih.arm key clock
  | expire t armed _ ih => exact ih.expire armed
  | @force log c key _ ih =>
    refine ih.quiet ?_ rfl (by simp) (by simp)
    show c.timers.filter _ = _
    simp [Incident.supersedes, Path.same_comm]
  | @ignore log c w path outcome _ ih =>
    obtain ⟨-, e⟩ | ⟨-, e⟩ | ⟨-, e⟩ | ⟨-, e⟩ := save_cases c w path <;> rw [e] at outcome ⊢
    · exact ih.idle rfl rfl
    · exact ih.idle rfl rfl
    · exact ih.idle rfl rfl
    · exact absurd rfl outcome
  | read w number _ ih => exact ih.idle rfl rfl
  | finish number _ ih => exact ih.idle (finish_timers _ _) (finish_nextGeneration _ _)
  | @shutdown log c _ ih =>
    refine ih.quiet ?_ rfl (by simp) (by simp)
    show [] = _
    simp [Incident.supersedes]

/-- Whatever a coordinator can do next is one of these steps, or nothing. -/
theorem Interleaved.moves {settings : Settings} {w : World} {event : Event}
    (h : Interleaved settings log c) (move : Moves w c event c') :
    ∃ log', Interleaved settings log' c' := by
  cases move with
  | save path =>
    by_cases scheduled : (c.save w path).1 = .scheduled
    · obtain ⟨-, e⟩ | ⟨-, e⟩ | ⟨-, e⟩ | ⟨-, e⟩ := save_cases c w path <;> rw [e] at scheduled ⊢
      · simp at scheduled
      · simp at scheduled
      · simp at scheduled
      · exact ⟨_, h.arm (w.key path) w.clock⟩
    · exact ⟨_, h.ignore w path scheduled⟩
  | force path => exact ⟨_, h.force (w.key path)⟩
  | refuse => exact ⟨log, h⟩
  | fire t there => exact ⟨_, h.expire t (h.registered.armed_of_mem there)⟩
  | read j => exact ⟨_, h.read w j.number⟩
  | finish j => exact ⟨_, h.finish j.number⟩
  | shutdown => exact ⟨_, h.shutdown⟩

theorem interleaved_of_run {world : World} {settings : Settings} {events : List Event} {s : Session}
    (h : Session.Run (.new world settings) events s) :
    ∃ log, Interleaved settings log s.coordinator := by
  induction h with
  | start => exact ⟨[], .start⟩
  | move _ last ih =>
    obtain ⟨log, h⟩ := ih
    obtain ⟨move, -⟩ | ⟨-, same⟩ := last.cases
    · exact h.moves move
    · exact ⟨log, same ▸ h⟩

/-- In any order of steps, in which a timer may go off at any moment after it was armed, however
late and however often: a file has at most one timer, all timers have generations of their own, a
timer that was superseded changes nothing when it goes off, and no timer starts two computations. A
timer that was neither superseded nor has fired is there, and starts one. Every session is such a
series of steps. -/
theorem superseded_timers_are_inert (settings : Settings) :
    (∀ log c, Interleaved settings log c →
      c.timers.Pairwise (fun t u => t.key.same u.key = false) ∧
      (armedTimers log).Pairwise (fun t u => t.generation ≠ u.generation) ∧
      (∀ t, Superseded log t → c.fire t.key t.generation = c) ∧
      (∀ t, log.count (.expired t true) ≤ 1) ∧
      (∀ t, .armed t ∈ log → ¬ Superseded log t → .expired t true ∉ log →
        t ∈ c.timers ∧
          c.fire t.key t.generation = (c.cancel t.key).start t.key (.timer t.generation))) ∧
    ∀ world steps, ∃ log,
      Interleaved settings log ((Session.new world settings).after steps).coordinator := by
  constructor
  · intro log c h
    have registered := h.registered
    refine ⟨registered.apart, registered.ordered.imp Nat.ne_of_lt, ?_, registered.once, ?_⟩
    · intro t superseded
      apply registered.fire_of_not_mem superseded.armed_mem
      intro there
      exact ((registered.mem_iff t).1 there).2.1 superseded
    · intro t armed current unspent
      have there := (registered.mem_iff t).2 ⟨armed, current, unspent⟩
      exact ⟨there, fire_of_mem there⟩
  · intro world steps
    exact interleaved_of_run (Session.run_after (Session.sound_new world settings) steps)

/-- A timer is replaced and goes off after its successor has fired; the file is saved again,
measured by force, and saved once more. -/
theorem replaced_timer_goes_off_last :
    let a := Path.ofString "/A.java"
    let settings : Settings := ⟨500, 0, "java".toList, []⟩
    let first : Timer := ⟨a, 0, 500⟩
    let second : Timer := ⟨a, 1, 510⟩
    let third : Timer := ⟨a, 2, 1500⟩
    let fourth : Timer := ⟨a, 3, 1600⟩
    let log := [.armed first, .armed second, .expired second true, .expired first false,
      .armed third, .forced a, .armed fourth]
    Superseded log first ∧ Superseded log third ∧ ¬ Superseded log fourth ∧
    ∃ c, Interleaved settings log c ∧
      c.fire first.key first.generation = c ∧ c.fire third.key third.generation = c ∧
      c.fire fourth.key fourth.generation =
        (c.cancel fourth.key).start fourth.key (.timer fourth.generation) := by
  intro a settings first second third fourth log
  have replaced : Superseded log first := ⟨[], _, rfl, .armed second, by simp, by decide⟩
  have forced : Superseded log third := ⟨log.take 4, _, rfl, .forced a, by simp, by decide⟩
  have last : ¬ Superseded log fourth := by
    show ¬ Superseded (log.take 6 ++ [.armed fourth]) fourth
    rw [superseded_concat]
    rintro (before | ⟨before, -⟩)
    · exact absurd before.armed_mem (by decide)
    · exact absurd before (by decide)
  have h : ∃ c, Interleaved settings log c :=
    ⟨_, ((((((Interleaved.start.arm a 0).arm a 10).expire second (by decide)).expire first
      (by decide)).arm a 1000).force a).arm a 1100⟩
  obtain ⟨c, h⟩ := h
  obtain ⟨-, -, inert, -, current⟩ := (superseded_timers_are_inert settings).1 log c h
  exact ⟨replaced, forced, last, c, h, inert first replaced, inert third forced,
    (current fourth (by decide) last (by decide)).2⟩

end Coordinator

end CodeGauge
