import Mathlib.Data.List.Perm.Basic
import CodeGauge.Proofs.Coordinator.Serial
import CodeGauge.Proofs.Coordinator.Shutdown

/-!
# The last read wins

When the bundle in the cache is the one that was read last. In any run this is so if no bundle
replaces one that was read after it, nobody is under way, and there was no shutdown
(`Run.stores_eq_reads`). In a session nothing else can happen, and the shutdown leaves the last
bundle in place (`cached_bundle_is_last_read`).
-/

namespace CodeGauge

namespace Session

variable {s t : Session} {log : List Event} {key : Path}

/-! ## Runs to the end -/

/-- Before the shutdown every bundle is kept. -/
theorem Run.kept_of_never (run : Run s log t) (up : s.coordinator.shutDown = false)
    (never : .shutDown ∉ log) {number : Nat} {k : Path} {bundle : Bundle} {kept : Bool}
    (done : .finished number k bundle kept ∈ log) : kept = true := by
  induction run with
  | start => simp at done
  | @move log t u e before last ih =>
    simp only [List.mem_append, List.mem_singleton, not_or] at never done
    rcases done with earlier | now
    · exact ih never.1 earlier
    · have still := before.shutDown_eq never.1
      cases last with
      | work work =>
        cases work with
        | finish =>
          obtain ⟨-, -, -, rfl⟩ : _ ∧ _ ∧ _ ∧ kept = _ := by simpa using now
          rw [still, up]
          rfl
        | _ => simp at now
      | _ => simp at now

theorem eq_or_of_getLast? {α : Type} {R : α → α → Prop} {l : List α} (ordered : l.Pairwise R)
    {last x : α} (isLast : l.getLast? = some last) (hx : x ∈ l) : x = last ∨ R x last := by
  obtain ⟨earlier, rfl⟩ := List.getLast?_eq_some_iff.1 isLast
  rcases List.mem_append.1 hx with before | this
  · exact .inr ((List.pairwise_append.1 ordered).2.2 x before last (List.mem_singleton_self _))
  · exact .inl (List.mem_singleton.1 this)

/-- If bundles are stored in the order in which they were read, the last one was read last of all
that were stored. -/
theorem InOrder.readTime_le (order : InOrder key log) {last x : Nat × Bundle}
    (isLast : last ∈ (stores key log).getLast?) (hx : x ∈ stores key log) :
    readTime log x.1 ≤ readTime log last.1 := by
  rcases eq_or_of_getLast? order isLast hx with rfl | before
  · exact Nat.le_refl _
  · exact Nat.le_of_lt before

/-- When nobody is under way any more and nothing was discarded, all that was read is stored. -/
theorem Run.mem_stores_iff {world : World} {settings : Settings}
    (run : Run (Session.new world settings) log s) (never : .shutDown ∉ log)
    (idle : s.coordinator.isIdle = true) (x : Nat × Bundle) :
    x ∈ stores key log ↔ x ∈ reads key log := by
  have traced := run.traced
  refine ⟨traced.mem_reads_of_mem_stores, ?_⟩
  intro hx
  obtain ⟨k, same, read⟩ := mem_reads.1 hx
  rcases traced.left _ _ _ read with ⟨kept, done⟩ | ⟨j, hj, -⟩
  · obtain rfl := run.kept_of_never rfl never done
    exact mem_stores.2 ⟨k, same, done⟩
  · have jobs : s.coordinator.jobs = [] := by
      unfold Coordinator.isIdle at idle
      simp_all
    simp [jobs] at hj

/-- If moreover bundles were stored in the order in which they were read, the stores are the
reads. -/
theorem Run.stores_eq_reads {world : World} {settings : Settings}
    (run : Run (Session.new world settings) log s) (never : .shutDown ∉ log)
    (idle : s.coordinator.isIdle = true) (order : InOrder key log) :
    stores key log = reads key log := by
  have ordered := run.traced.reads_ordered key
  have different {l : List (Nat × Bundle)}
      (h : l.Pairwise fun x y => readTime log x.1 < readTime log y.1) : l.Nodup := by
    unfold List.Nodup
    refine h.imp ?_
    rintro x _ before rfl
    exact Nat.lt_irrefl _ before
  -- Two sorted lists with the same elements are equal.
  have same : (stores key log).Perm (reads key log) :=
    (List.perm_ext_iff_of_nodup (different order) (different ordered)).2
      (run.mem_stores_iff never idle)
  refine same.eq_of_pairwise ?_ order ordered
  intro x y _ _ before after
  omega

/-- The shutdown and whatever follows leave the cache of a session as it is. -/
theorem cache_after_shutdown (sound : s.coordinator.Sound) (later : List Step) :
    (s.after (.shutdown :: later)).coordinator.cache = s.coordinator.cache := by
  have settles := run_settle (s := (s.act .shutdown).2) sound.shutdown
  have rest := settles.trans (run_after (settles.sound sound.shutdown) later)
  exact (rest.staysShut sound.shutdown rfl).cache

/-! ## Stale bundles -/

/-- Of two computations of a file under way, the one that reads first may store last. -/
theorem run_overtake (sound : s.coordinator.Sound) (up : s.coordinator.shutDown = false) {i j : Job}
    (first : i ∈ s.coordinator.jobs) (second : j ∈ s.coordinator.jobs)
    (other : j.number ≠ i.number) (unread : i.result = none) (unread' : j.result = none)
    (same : i.key.same key = true) (same' : j.key.same key = true) (now : Instant) :
    ∃ events t early late, Run s events t ∧ .shutDown ∉ events ∧
      reads key events = [(i.number, early), (j.number, late)] ∧
      stores key events = [(j.number, late), (i.number, early)] ∧
      early.timestamp = s.world.wall ∧ late.timestamp = now ∧
      t.coordinator.timers = s.coordinator.timers ∧
      ∀ x ∈ t.coordinator.jobs, x ∈ s.coordinator.jobs ∧ x.number ≠ i.number ∧
        x.number ≠ j.number := by
  have jobs {x : Job} :=
    Coordinator.mem_readFiles_jobs sound first unread (w := s.world) (x := x)
  have waits := jobs.2 (.inr ⟨second, other⟩)
  -- The first one reads; then, at another time of day, the second one reads and stores.
  have begins : Run s _ _ := (Run.single (.work (.read i first unread))).move (.date _ now)
  have completes := run_complete (begins.sound sound) waits
  have up' : (s.coordinator.readFiles s.world i.number).shutDown = false := up
  simp only [Job.completeEvents, unread', up', Bool.not_false] at completes
  generalize after : (s.coordinator.readFiles s.world i.number).complete
    { s.world with wall := now } j.number = c at completes
  have jobs' {x : Job} : x ∈ c.jobs ↔
      x ∈ (s.coordinator.readFiles s.world i.number).jobs ∧ x.number ≠ j.number := by
    rw [← after, Coordinator.complete_jobs, Coordinator.mem_leave_jobs]
  -- The first one is still there with the bundle that it read, and stores it.
  have both := begins.trans completes
  have there : { i with result := some (s.world.measure i.key) } ∈ c.jobs :=
    jobs'.2 ⟨jobs.2 (.inl rfl), Ne.symm other⟩
  have last := both.move (.work (.finish _ _ there rfl))
  have up'' : c.shutDown = false := by rw [← after, Coordinator.complete_shutDown, up']
  have left := Coordinator.finish_of_mem (both.sound sound) there rfl
  simp only [up'', Bool.not_false] at last
  refine ⟨_, _, s.world.measure i.key, { s.world with wall := now }.measure j.key, last, by simp,
    by simp [reads, List.filterMap_cons, Event.readOf?, same, same'],
    by simp [stores, List.filterMap_cons, Event.storeOf?, same, same'], rfl, rfl, ?_, ?_⟩
  · show (c.finish i.number).timers = _
    rw [left, Coordinator.store_timers]
    show c.timers = _
    rw [← after, Coordinator.complete_of_mem (sound.readFiles _ _) waits, Coordinator.store_timers]
    rfl
  · intro x hx
    have hx : x ∈ (c.finish i.number).jobs := hx
    rw [left, Coordinator.store_jobs, Coordinator.mem_leave_jobs, jobs', jobs] at hx
    obtain ⟨⟨rfl | ⟨old, -⟩, notSecond⟩, notFirst⟩ := hx
    · exact absurd rfl notFirst
    · exact ⟨old, notFirst, notSecond⟩

/-- Where two computations of a file are the only ones left, the bundle that is read first may be
the one that stays. -/
theorem Run.exists_stale {world : World} {settings : Settings}
    (run : Run (Session.new world settings) log s) (never : .shutDown ∉ log)
    (unread : Unread s.coordinator) (timers : s.coordinator.timers = []) {i j : Job}
    (jobs : s.coordinator.jobs = [i, j]) (first : i.key.same key = true)
    (second : j.key.same key = true) (now : Instant) (other : now ≠ s.world.wall) :
    ∃ log t, Run (Session.new world settings) log t ∧ .shutDown ∉ log ∧
      t.coordinator.isIdle = true ∧ ¬ StaleFree key log ∧
      Snapshot.lookup? t.coordinator.cache key ≠ (reads key log).getLast?.map (·.2) := by
  have sound := run.sound (sound_new world settings)
  have ordered := sound.ordered
  rw [jobs] at ordered
  have before : i.number < j.number := by simpa using ordered
  have hi : i ∈ s.coordinator.jobs := by simp [jobs]
  have hj : j ∈ s.coordinator.jobs := by simp [jobs]
  have up : s.coordinator.shutDown = false := run.shutDown_eq never
  obtain ⟨events, t, early, late, overtakes, never', reads', stores', earlyAt, lateAt,
      still, left⟩ :=
    run_overtake sound up hi hj (Nat.ne_of_gt before) (unread i hi) (unread j hj) first second now
  have whole := run.trans overtakes
  have up_to_end : .shutDown ∉ log ++ events := List.not_mem_append never never'
  have done : t.coordinator.jobs = [] := by
    rw [List.eq_nil_iff_forall_not_mem]
    intro x hx
    obtain ⟨old, notFirst, notSecond⟩ := left x hx
    rw [jobs] at old
    rcases List.mem_pair.1 old with rfl | rfl
    · exact notFirst rfl
    · exact notSecond rfl
  have idle : t.coordinator.isIdle = true := by simp [Coordinator.isIdle, still, timers, done]
  have stored : (stores key (log ++ events)).getLast? = some (i.number, early) := by
    simp [stores_append, stores']
  have read : (reads key (log ++ events)).getLast? = some (j.number, late) := by
    simp [reads_append, reads']
  refine ⟨_, t, whole, up_to_end, idle, ?_, ?_⟩
  · intro free
    have equal := whole.stores_eq_reads up_to_end idle (staleFree_iff_inOrder.1 free)
    rw [equal, read] at stored
    obtain ⟨number, -⟩ : j.number = i.number ∧ _ := by simpa using stored
    omega
  · rw [whole.lookup?_cache (sound_new world settings), stored, read]
    intro same
    have moment : early.timestamp = late.timestamp :=
      congrArg Bundle.timestamp (Option.some.inj same)
    rw [earlyAt, lateAt] at moment
    exact other moment.symm

/-- A computation that reads after the shutdown is discarded, and an older bundle stays. -/
theorem Run.exists_discarded {world : World} {settings : Settings}
    (run : Run (Session.new world settings) log s) (down : s.coordinator.shutDown = true)
    (unread : Unread s.coordinator) {j : Job} (jobs : s.coordinator.jobs = [j])
    (same : j.key.same key = true) (past now : Instant)
    (cached : (Snapshot.lookup? s.coordinator.cache key).map (·.timestamp) = some past)
    (other : now ≠ past) :
    ∃ log t, Run (Session.new world settings) log t ∧ t.coordinator.isIdle = true ∧
      Snapshot.lookup? t.coordinator.cache key ≠ (reads key log).getLast?.map (·.2) := by
  have sound := run.sound (sound_new world settings)
  have hj : j ∈ s.coordinator.jobs := by simp [jobs]
  obtain ⟨u, dated, unchanged, wall⟩ : ∃ u, Run s [.dated now] u ∧ u.coordinator = s.coordinator ∧
      u.world.wall = now := ⟨_, .single (.date s now), rfl, rfl⟩
  have completes := dated.trans (run_complete (dated.sound sound) (unchanged ▸ hj))
  have shut := completes.staysShut sound down
  have done : (u.coordinator.complete u.world j.number).jobs = [] := by
    rw [Coordinator.complete_jobs, unchanged]
    simp [Coordinator.leave, jobs]
  have read : reads key (j.completeEvents u.world u.coordinator.shutDown) =
      [(j.number, u.world.measure j.key)] := by
    simp [Job.completeEvents, unread j hj, reads, List.filterMap_cons, Event.readOf?, same]
  refine ⟨_, _, run.trans completes, ?_, ?_⟩
  · have timers := shut.timers
    simp only at timers
    simp [Coordinator.isIdle, timers, done]
  · rw [shut.cache, reads_append, reads_append, read, List.getLast?_append, List.getLast?_append]
    intro equal
    rw [equal] at cached
    have moment : u.world.wall = past := Option.some.inj cached
    rw [wall] at moment
    exact other moment

/-! ## The bundle in the cache -/

/-- A file has the bundle in the cache that was stored last. If its computations do not overlap
between reading and storing, no bundle replaces one that was read after it. Whenever no bundle does,
the one in the cache was read last of all that were stored, and of all at the end of a run without a
shutdown.

In a session no bundle ever replaces one that was read after it, the bundle in the cache is the one
that was read last, and the shutdown leaves it there. -/
theorem cached_bundle_is_last_read (world : World) (settings : Settings) (key : Path) :
    (∀ log s, Run (Session.new world settings) log s →
      Snapshot.lookup? s.coordinator.cache key = (stores key log).getLast?.map (·.2) ∧
      (Serial key log → StaleFree key log) ∧
      (StaleFree key log →
        (∀ last ∈ (stores key log).getLast?, ∀ x ∈ stores key log,
          readTime log x.1 ≤ readTime log last.1) ∧
        (.shutDown ∉ log → s.coordinator.isIdle = true →
          Snapshot.lookup? s.coordinator.cache key = (reads key log).getLast?.map (·.2)))) ∧
    ∀ steps, Serial key ((Session.new world settings).logs steps).flatten ∧
      StaleFree key ((Session.new world settings).logs steps).flatten ∧
      (.shutdown ∉ steps →
        let last := (reads key ((Session.new world settings).logs steps).flatten).getLast?.map (·.2)
        Snapshot.lookup? ((Session.new world settings).after steps).coordinator.cache key = last ∧
        ∀ later, Snapshot.lookup?
          ((Session.new world settings).after (steps ++ .shutdown :: later)).coordinator.cache key =
            last) := by
  have sound := sound_new world settings
  have cached : ∀ log s, Run (Session.new world settings) log s →
      Snapshot.lookup? s.coordinator.cache key = (stores key log).getLast?.map (·.2) := by
    intro log s run
    rw [run.lookup?_cache sound]
    exact Option.or_none
  constructor
  · intro log s run
    refine ⟨cached log s run, ?_, ?_⟩
    · intro serial
      exact staleFree_iff_inOrder.2 (serial.inOrder run)
    · intro free
      have order := staleFree_iff_inOrder.1 free
      refine ⟨fun last isLast x hx => order.readTime_le isLast hx, ?_⟩
      intro never idle
      rw [cached log s run, run.stores_eq_reads never idle order]
  · intro steps
    have run := run_after sound steps
    have serial := (tidy_logs world settings key steps).serial
    refine ⟨serial, staleFree_iff_inOrder.2 (serial.inOrder run), ?_⟩
    intro never last
    have now : Snapshot.lookup? ((Session.new world settings).after steps).coordinator.cache key =
        last := by
      rw [cached _ _ run, (prompt_logs world settings key never).stored]
      rfl
    refine ⟨now, ?_⟩
    intro later
    have whole : (Session.new world settings).after (steps ++ .shutdown :: later) =
        ((Session.new world settings).after steps).after (.shutdown :: later) :=
      List.foldl_append
    rw [whole, cache_after_shutdown (run.sound sound), now]

/-- Two computations of a file overlap: the second starts while the first is held. -/
theorem overlapping_computations_keep_last_read :
    let key := World.bare.key (.ofString "A.java")
    let start := Session.new .bare .default
    let steps : List Step := [.save (.ofString "A.java"), .hold, .advance 500,
      .save (.ofString "A.java"), .advance 500, .release]
    let log := (start.logs steps).flatten
    .shutdown ∉ steps ∧ (start.after steps).coordinator.stats.computations = 2 ∧
      (start.after steps).coordinator.isIdle = true ∧ Serial key log ∧ StaleFree key log ∧
      Snapshot.lookup? (start.after steps).coordinator.cache key =
        (reads key log).getLast?.map (·.2) := by
  intro key start steps log
  obtain ⟨runs, sessions⟩ := cached_bundle_is_last_read .bare .default key
  have never : .shutdown ∉ steps := by simp [steps]
  have idle : (start.after steps).coordinator.isIdle = true := by decide
  obtain ⟨-, serialFree, lastRead⟩ :=
    runs log (start.after steps) (run_after (sound_new _ _) steps)
  have serial := (sessions steps).1
  have free := serialFree serial
  have last := (lastRead free).2 (shutDown_not_mem_logs start never) idle
  refine ⟨never, ?_, idle, serial, free, last⟩
  decide

/-- Two ways in which the bundle in the cache is not the one that was read last: a computation that
read first stores last, or the one that read last is discarded after the shutdown. -/
theorem cached_bundle_is_stale :
    let path := Path.ofString "A.java"
    let key := World.bare.key path
    let start := Session.new .bare ⟨0, 0, "java".toList, []⟩
    (∃ log s, Run start log s ∧ .shutDown ∉ log ∧ s.coordinator.isIdle = true ∧
      ¬ StaleFree key log ∧
      Snapshot.lookup? s.coordinator.cache key ≠ (reads key log).getLast?.map (·.2)) ∧
    ∃ log s, Run start log s ∧ s.coordinator.isIdle = true ∧
      Snapshot.lookup? s.coordinator.cache key ≠ (reads key log).getLast?.map (·.2) := by
  intro path key start
  have sound : start.coordinator.Sound := sound_new _ _
  constructor
  · let steps : List Step := [.hold, .save path, .save path]
    have keys : (start.after steps).coordinator.jobs.map (·.key) = [key, key] := by decide
    obtain ⟨i, rest, jobs, first, keys⟩ := List.map_eq_cons_iff.1 keys
    obtain ⟨j, _, rfl, second, keys⟩ := List.map_eq_cons_iff.1 keys
    obtain rfl := List.map_eq_nil_iff.1 keys
    have never : .shutDown ∉ (start.logs steps).flatten :=
      shutDown_not_mem_logs start (by simp [steps])
    exact (run_after sound steps).exists_stale never (unread_after _ _ steps) (by decide) jobs
      (by rw [first, Path.same_self]) (by rw [second, Path.same_self]) (.nextDay .epoch) (by decide)
  · let steps : List Step := [.force path 1, .hold, .save path, .shutdown]
    have keys : (start.after steps).coordinator.jobs.map (·.key) = [key] := by decide
    obtain ⟨j, rest, jobs, this, keys⟩ := List.map_eq_cons_iff.1 keys
    obtain rfl := List.map_eq_nil_iff.1 keys
    exact (run_after sound steps).exists_discarded (by decide) (unread_after _ _ steps) jobs
      (by rw [this, Path.same_self]) .epoch (.nextDay .epoch) (by decide) (by decide)

end Session

end CodeGauge
