import CodeGauge.Proofs.Coordinator.LastStore

/-!
# No save is lost

A save that was scheduled is owed a computation that reads its file afterwards and stores the bundle
(`Served`). Until then somebody has the debt: first the timer, then a timer that replaced it, then a
computation that was started by a timer or by force (`Owed`). No move drops the debt as long as the
coordinator is not shut down, and an idle coordinator has none left.

* `Owed.moves`: what one move does to the debt;
* `scheduled_saves_are_stored`: when the coordinator is idle, all scheduled saves have been served.
-/

namespace CodeGauge

namespace Session

/-- A computation of the file read it and stored its bundle. -/
def Served (key : Path) (log : List Event) : Prop :=
  ∃ number k bundle, k.same key = true ∧
    List.Sublist [.read number k bundle, .finished number k bundle true] log

/-- The file was served, or there is a timer for it, or a computation of it under way that has read
it only since the log began. -/
def Owed (key : Path) (log : List Event) (c : Coordinator) : Prop :=
  (∃ t ∈ c.timers, t.key.same key = true) ∨
  (∃ j ∈ c.jobs, j.key.same key = true ∧
    ∀ bundle, j.result = some bundle → .read j.number j.key bundle ∈ log) ∨
  Served key log

variable {key : Path} {log : List Event} {c c' : Coordinator} {w : World} {e : Event}

theorem Served.append (h : Served key log) (more : List Event) : Served key (log ++ more) := by
  obtain ⟨number, k, bundle, same, there⟩ := h
  exact ⟨number, k, bundle, same, there.trans (List.sublist_append_left _ _)⟩

theorem Owed.append (h : Owed key log c) (more : List Event) : Owed key (log ++ more) c := by
  obtain armed | ⟨j, hj, same, read⟩ | served := h
  · exact .inl armed
  · exact .inr (.inl ⟨j, hj, same, fun bundle hb => List.mem_append_left _ (read bundle hb)⟩)
  · exact .inr (.inr (served.append more))

/-- A save that arms a timer leaves the debt with it or where it was. -/
theorem Owed.arm (h : Owed key log c) (k : Path) (clock : Nat) : Owed key log (c.arm k clock) := by
  obtain ⟨t, ht, same⟩ | ⟨j, hj, same, read⟩ | served := h
  · left
    by_cases taken : t.key.same k = true
    · exact ⟨_, Coordinator.mem_arm_timers.2 (.inr rfl),
        Path.same_trans (Path.same_symm taken) same⟩
    · exact ⟨t, Coordinator.mem_arm_timers.2 (.inl ⟨ht, by simpa using taken⟩), same⟩
  · exact .inr (.inl ⟨j, hj, same, read⟩)
  · exact .inr (.inr served)

/-- A computation that starts takes over the debt of the timer that goes. -/
theorem Owed.start (h : Owed key log c) (k : Path) (origin : JobOrigin) :
    Owed key log ((c.cancel k).start k origin) := by
  obtain ⟨t, ht, same⟩ | ⟨j, hj, same, read⟩ | served := h
  · by_cases taken : t.key.same k = true
    · right
      left
      refine ⟨_, Coordinator.mem_start_jobs.2 (.inr rfl), ?_, ?_⟩
      · exact Path.same_trans (Path.same_symm taken) same
      · intro bundle unread
        simp at unread
    · exact .inl ⟨t, Coordinator.mem_cancel_timers.2 ⟨ht, by simpa using taken⟩, same⟩
  · exact .inr (.inl ⟨j, Coordinator.mem_start_jobs.2 (.inl hj), same, read⟩)
  · exact .inr (.inr served)

/-- No move of a coordinator that stays up drops the debt. -/
theorem Owed.moves (h : Owed key log c) (sound : c.Sound) (move : Coordinator.Moves w c e c')
    (up : c.shutDown = false) (stays : e ≠ .shutDown) : Owed key (log ++ [e]) c' := by
  cases move with
  | save path =>
    obtain ⟨-, result⟩ | ⟨-, result⟩ | ⟨-, result⟩ | ⟨-, result⟩ :=
      Coordinator.save_cases c w path <;> rw [result]
    · exact h.append _
    · exact h.append _
    · exact h.append _
    · exact (h.arm _ _).append _
  | force path => exact (h.start _ _).append _
  | refuse => exact h.append _
  | fire t armed =>
    rw [Coordinator.fire_of_mem armed]
    exact (h.start _ _).append _
  | read j started unread =>
    obtain armed | ⟨i, hi, same, read⟩ | served := h
    · exact .inl armed
    · right
      left
      by_cases this : i.number = j.number
      · obtain rfl := sound.eq_of_number hi started this
        refine ⟨_, (Coordinator.mem_readFiles_jobs sound started unread).2 (.inl rfl), same, ?_⟩
        rintro bundle ⟨⟩
        simp
      · refine ⟨i, (Coordinator.mem_readFiles_jobs sound started unread).2 (.inr ⟨hi, this⟩), same,
          ?_⟩
        exact fun bundle hb => List.mem_append_left _ (read bundle hb)
    · exact .inr (.inr (served.append _))
  | finish j bundle started result =>
    rw [Coordinator.finish_of_mem sound started result]
    obtain ⟨t, ht, same⟩ | ⟨i, hi, same, read⟩ | served := h
    · exact .inl ⟨t, by simpa [Coordinator.leave] using ht, same⟩
    · right
      by_cases this : i.number = j.number
      · -- The computation that has the debt stores its bundle, so the file is served.
        obtain rfl := sound.eq_of_number hi started this
        right
        refine ⟨i.number, i.key, bundle, same, ?_⟩
        rw [up]
        exact (List.singleton_sublist.2 (read bundle result)).append (List.Sublist.refl _)
      · left
        refine ⟨i, ?_, same, fun b hb => List.mem_append_left _ (read b hb)⟩
        rw [Coordinator.store_jobs, Coordinator.mem_leave_jobs]
        exact ⟨hi, this⟩
    · exact .inr (.inr (served.append _))
  | shutdown => exact absurd rfl stays

/-- A save that is scheduled arms the timer of its file. -/
theorem moves_scheduled {path : Path} {clock : Nat}
    (move : Coordinator.Moves w c (.saved path key .scheduled clock) c') :
    key = w.key path ∧ c' = c.arm key w.clock := by
  generalize event : Event.saved path key .scheduled clock = e at move
  cases move with
  | save p =>
    obtain ⟨rfl, rfl, outcome, -⟩ : path = p ∧ key = w.key p ∧ .scheduled = (c.save w p).1 ∧ _ := by
      simpa using event
    obtain ⟨-, result⟩ | ⟨-, result⟩ | ⟨-, result⟩ | ⟨-, result⟩ :=
      Coordinator.save_cases c w path <;>
      rw [result] at outcome ⊢
    · simp at outcome
    · simp at outcome
    · simp at outcome
    · exact ⟨rfl, rfl⟩
  | _ => simp at event

theorem Run.owed {s t : Session} (run : Run s log t) (sound : s.coordinator.Sound)
    (up : s.coordinator.shutDown = false) (never : .shutDown ∉ log)
    (owed : Owed key [] s.coordinator) :
    Owed key log t.coordinator := by
  induction run with
  | start => exact owed
  | move before last ih =>
    simp only [List.mem_append, List.mem_singleton, not_or] at never
    have still := before.shutDown_eq never.1
    obtain ⟨move, -⟩ | ⟨-, same⟩ := last.cases
    · exact (ih never.1).moves (before.sound sound) move (still.trans up) (Ne.symm never.2)
    · rw [same]
      exact (ih never.1).append _

/-- When an idle coordinator owes nothing, the file was served. -/
theorem Owed.served (owed : Owed key log c) (idle : c.isIdle = true) : Served key log := by
  unfold Coordinator.isIdle at idle
  obtain ⟨timers, jobs⟩ : c.timers = [] ∧ c.jobs = [] := by simpa using idle
  obtain ⟨t, ht, -⟩ | ⟨j, hj, -⟩ | served := owed
  · simp [timers] at ht
  · simp [jobs] at hj
  · exact served

/-- Every save of the log that was scheduled has been followed by a computation of its file that
read it and stored the bundle, and the bundle of the file is in the cache. -/
def SavesStored (log : List Event) (s : Session) : Prop :=
  ∀ before path key clock after, log = before ++ .saved path key .scheduled clock :: after →
    Served key after ∧ (s.coordinator.get? s.world path).isSome = true

theorem Run.savesStored {world : World} {settings : Settings} {s : Session}
    (run : Run (Session.new world settings) log s) (never : .shutDown ∉ log)
    (idle : s.coordinator.isIdle = true) : SavesStored log s := by
  rintro before path key clock after rfl
  have sound := sound_new world settings
  obtain ⟨t, first, second⟩ := run.split
  obtain ⟨u, save, rest⟩ := second.uncons
  simp only [List.mem_append, List.mem_cons, not_or] at never
  obtain ⟨move, still⟩ | ⟨outside, -⟩ := save.cases
  · obtain ⟨rfl, arms⟩ := moves_scheduled move
    -- The debt starts with the timer that this save arms.
    have owed : Owed (t.world.key path) [] u.coordinator := by
      rw [arms]
      exact .inl ⟨_, Coordinator.mem_arm_timers.2 (.inr rfl), Path.same_self _⟩
    have up : u.coordinator.shutDown = false := by
      rw [save.shutDown_eq (by simp), first.shutDown_eq never.1]
      rfl
    have served := (rest.owed (save.sound (first.sound sound)) up never.2.2 owed).served idle
    refine ⟨served, ?_⟩
    obtain ⟨number, k, bundle, same, there⟩ := served
    have stored : (number, bundle) ∈ stores (t.world.key path)
        (before ++ .saved path (t.world.key path) .scheduled clock :: after) := by
      refine mem_stores.2 ⟨k, same, List.mem_append_right _ (List.mem_cons_of_mem _ ?_)⟩
      exact there.subset (by simp)
    obtain ⟨x, last⟩ := Option.ne_none_iff_exists'.1
      (mt List.getLast?_eq_none_iff.1 (List.ne_nil_of_mem stored))
    unfold Coordinator.get?
    rw [rest.key_eq, save.key_eq, run.lookup?_cache sound, last]
    rfl
  · simp [Event.isOutside] at outside

/-- No accepted save is lost: in every run without a shutdown, and in every session without one, all
saves that were scheduled have been served when the coordinator is idle. -/
theorem scheduled_saves_are_stored (world : World) (settings : Settings) :
    (∀ log s, Run (Session.new world settings) log s → .shutDown ∉ log →
      s.coordinator.isIdle = true → SavesStored log s) ∧
    ∀ steps, .shutdown ∉ steps →
      ((Session.new world settings).after steps).coordinator.isIdle = true →
        SavesStored ((Session.new world settings).logs steps).flatten
          ((Session.new world settings).after steps) := by
  constructor
  · intro log s run never idle
    exact run.savesStored never idle
  · intro steps never idle
    have run := run_after (sound_new world settings) steps
    exact run.savesStored (shutDown_not_mem_logs _ never) idle

/-- Two saves whose computations overlap: the second comes while that of the first is held. -/
theorem overlapping_saves_are_stored :
    let steps : List Step := [.save (.ofString "A.java"), .hold, .advance 500,
      .save (.ofString "A.java"), .release, .waitIdle]
    .shutdown ∉ steps ∧
      ((Session.new .bare .default).after steps).coordinator.isIdle = true ∧
      ((Session.new .bare .default).after steps).coordinator.stats.scheduled = 2 ∧
      SavesStored ((Session.new .bare .default).logs steps).flatten
        ((Session.new .bare .default).after steps) := by
  intro steps
  have never : .shutdown ∉ steps := by simp [steps]
  have idle : ((Session.new .bare .default).after steps).coordinator.isIdle = true := by decide
  exact ⟨never, idle, by decide, (scheduled_saves_are_stored .bare .default).2 steps never idle⟩

end Session

end CodeGauge
