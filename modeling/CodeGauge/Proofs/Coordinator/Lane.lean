import CodeGauge.Proofs.Coordinator.Serial
import CodeGauge.Proofs.Coordinator.Timers

/-!
# The lane of a file

All files share one coordinator, its timers, its computations and its clock. Still a file sees only
a small part of it, its lane: its own timer with the time that is left, its own computations that
wait, and its own bundle. A lane is a machine that runs by itself (`Lane.step`), without
generations, numbers of computations or the time of the clock.

* `Session.lane_step`: what a step does to the lane of a file, and what the file sees of it, is what
  the lane does by itself.
-/

namespace CodeGauge

/-- What a file sees: how a save of it ends, what is stored for it, and what is answered about
it. -/
inductive Sight where
  | outcome (o : SaveOutcome)
  | stored (b : Bundle)
  | answered (b : Option Bundle)

def Sight.stored? : Sight → Option Bundle
  | stored b => some b
  | _ => none

/-- The part of a session that concerns one file. -/
@[ext]
structure Lane where
  settings : Settings
  tree : FileTree
  held : Bool
  down : Bool
  /-- The timer of the file, as its path was spelled, with the time that is left. -/
  timers : List (Path × Nat)
  /-- The computations that wait, as their paths were spelled. -/
  jobs : List Path
  cached : Option Bundle

namespace Lane

def key (l : Lane) (path : Path) : Path := Path.absolute l.tree.cwdPath path

def measure (l : Lane) (now : Instant) (path : Path) : Bundle := Workspace.bundle l.tree now path

def isFresh (l : Lane) (now : Instant) : Bool :=
  match l.cached with
  | some bundle => Instant.age now bundle.timestamp < l.settings.freshness * 1000000
  | none => false

/-- A save of the file. -/
def save (l : Lane) (now : Instant) (path : Path) : SaveOutcome × Lane :=
  if l.down then (.shutDown, l)
  else if !path.hasExtension l.settings.extension then (.notSource, l)
  else if l.isFresh now then (.fresh, l)
  else (.scheduled, { l with timers := [(l.key path, l.settings.debounce)] })

def saveAll (l : Lane) (now : Instant) : List Path → List Sight × Lane
  | [] => ([], l)
  | path :: rest =>
    let (outcome, l) := l.save now path
    let (sights, l) := l.saveAll now rest
    (.outcome outcome :: sights, l)

/-- A measurement of the file that is forced so many times. -/
def force (l : Lane) (now : Instant) (path : Path) (times : Nat) : List Sight × Lane :=
  if l.down || times = 0 then ([], l)
  else
    let bundle := l.measure now (l.key path)
    (.replicate times (.stored bundle), { l with timers := [], cached := some bundle })

/-- Timers with no time left fire, and computations that are not held store what they measure. -/
def settle (l : Lane) (now : Instant) : List Sight × Lane :=
  let timers := l.timers.filter (·.2 ≠ 0)
  let jobs := l.jobs ++ (l.timers.filter (·.2 = 0)).map (·.1)
  if l.held then ([], { l with timers, jobs })
  else if l.down then ([], { l with timers, jobs := [] })
  else
    (jobs.map fun path => .stored (l.measure now path),
      { l with timers, jobs := [], cached := (jobs.getLast?.map (l.measure now)).or l.cached })

/-- So much time passes. -/
def wait (l : Lane) (millis : Nat) : Lane :=
  { l with timers := l.timers.map fun (path, left) => (path, left - millis) }

/-- The time that is left passes. -/
def expire (l : Lane) : Lane := { l with timers := l.timers.map fun (path, _) => (path, 0) }

def waitIdle (l : Lane) (now : Instant) : List Sight × Lane :=
  let (sights, l) := { l with held := false }.settle now
  let (more, l) := l.expire.settle now
  (sights ++ more, l)

/-- What a step does to the lane of the file with the given key, before anything settles. -/
def act (key : Path) (l : Lane) (now : Instant) : Session.Step → List Sight × Lane
  | .save path => l.saveAll now ([path].filter fun p => (l.key p).same key)
  | .saves paths => l.saveAll now (paths.filter fun p => (l.key p).same key)
  | .force path times => if (l.key path).same key then l.force now path times else ([], l)
  | .warmUp root =>
    l.saveAll now ((Workspace.gather l.tree root l.settings.extension l.settings.excluded).filter
      fun p => (l.key p).same key)
  | .advance millis => ([], l.wait millis)
  | .waitIdle => l.waitIdle now
  | .hold => ([], { l with held := true })
  | .release => ([], { l with held := false })
  | .shutdown => ([], { l with timers := [], down := true })
  | .edit path change => ([], { l with tree := l.tree.edit path change })
  | .get _ | .all | .subscribe | .updates => ([], l)

/-- What a step answers about the file. -/
def answers (key : Path) (l : Lane) (now : Instant) : Session.Step → List Sight
  | .get path => if (l.key path).same key then [.answered l.cached] else []
  | .force path times =>
    if (l.key path).same key then
      [.answered (if l.down || times = 0 then none else some (l.measure now (l.key path)))]
    else []
  | _ => []

def step (key : Path) (l : Lane) (now : Instant) (next : Session.Step) : List Sight × Lane :=
  let (sights, l') := l.act key now next
  let (more, l'') := l'.settle now
  (sights ++ more ++ l.answers key now next, l'')

theorem force_of_down {l : Lane} (down : l.down = true) (now : Instant) (path : Path)
    (times : Nat) :
    l.force now path times = ([], l) := by
  unfold force
  rw [if_pos (by simp [down])]

theorem force_zero (l : Lane) (now : Instant) (path : Path) : l.force now path 0 = ([], l) := by
  unfold force
  rw [if_pos (by simp)]

theorem force_of_up {l : Lane} (up : l.down = false) (now : Instant) (path : Path) (n : Nat) :
    l.force now path (n + 1) =
      (.replicate (n + 1) (.stored (l.measure now (l.key path))),
        { l with timers := [], cached := some (l.measure now (l.key path)) }) := by
  unfold force
  rw [if_neg (by simp [up])]

theorem force_succ (l : Lane) (now : Instant) (path : Path) (n : Nat) :
    l.force now path (n + 1) =
      ((l.force now path 1).1 ++ ((l.force now path 1).2.force now path n).1,
        ((l.force now path 1).2.force now path n).2) := by
  cases down : l.down with
  | true => rw [force_of_down down, force_of_down down, force_of_down down, List.append_nil]
  | false =>
    rw [force_of_up down, force_of_up down]
    cases n with
    | zero => rw [force_zero, List.append_nil]
    | succ n =>
      rw [force_of_up (l := { l with timers := [], cached := _ }) down]
      rfl

theorem settle_of_held {l : Lane} (held : l.held = true) (now : Instant) :
    l.settle now = ([], { l with
      timers := l.timers.filter (·.2 ≠ 0)
      jobs := l.jobs ++ (l.timers.filter (·.2 = 0)).map (·.1) }) := by
  unfold settle
  rw [if_pos held]

theorem settle_of_down {l : Lane} (released : l.held = false) (down : l.down = true)
    (now : Instant) :
    l.settle now = ([], { l with timers := l.timers.filter (·.2 ≠ 0), jobs := [] }) := by
  unfold settle
  rw [if_neg (by simp [released]), if_pos down]

theorem settle_of_up {l : Lane} (released : l.held = false) (up : l.down = false) (now : Instant) :
    l.settle now =
      let jobs := l.jobs ++ (l.timers.filter (·.2 = 0)).map (·.1)
      (jobs.map fun path => .stored (l.measure now path), { l with
        timers := l.timers.filter (·.2 ≠ 0)
        jobs := []
        cached := (jobs.getLast?.map (l.measure now)).or l.cached }) := by
  unfold settle
  rw [if_neg (by simp [released]), if_neg (by simp [up])]

end Lane

/-! ## The lane of a session -/

/-- What a file sees of an event. -/
def Event.sight? (key : Path) : Event → Option Sight
  | saved _ k outcome _ => if k.same key then some (.outcome outcome) else none
  | finished _ k bundle true => if k.same key then some (.stored bundle) else none
  | _ => none

/-- What a file sees of the answer to a step. -/
def Session.Step.answersTo (key : Path) (w : World) : Session.Step → Session.Answer → List Sight
  | .get path, .bundle b => if (w.key path).same key then [.answered b] else []
  | .force path _, .bundle b => if (w.key path).same key then [.answered b] else []
  | _, _ => []

namespace Session

def sights (key : Path) (log : List Event) : List Sight := log.filterMap (Event.sight? key)

/-- What a file sees of a step. -/
def stepSights (key : Path) (s : Session) (next : Step) : List Sight :=
  sights key (s.stepEvents next) ++ next.answersTo key s.world (s.act next).1

/-- The lane of a file in a session. -/
def lane (key : Path) (s : Session) : Lane where
  settings := s.coordinator.settings
  tree := s.world.tree
  held := s.held
  down := s.coordinator.shutDown
  timers := (s.coordinator.timersOf key).map fun t => (t.key, t.due - s.world.clock)
  jobs := (s.coordinator.jobs.map (·.key)).filter (·.same key)
  cached := Snapshot.lookup? s.coordinator.cache key

variable {s : Session} {key : Path}

theorem sights_append (key : Path) (log more : List Event) :
    sights key (log ++ more) = sights key log ++ sights key more := List.filterMap_append

/-! ## Settling -/

end Session

namespace Coordinator

variable {c : Coordinator}

/-- Timers that go off in turn start their computations. -/
theorem fires_jobs (due : List Timer) (armed : ∀ t ∈ due, t ∈ c.timers)
    (apart : due.Pairwise fun t u => t.key.same u.key = false) :
    (due.foldl (fun c t => c.fire t.key t.generation) c).jobs.map (·.key) =
      c.jobs.map (·.key) ++ due.map (·.key) := by
  induction due generalizing c with
  | nil => simp
  | cons t rest ih =>
    obtain ⟨others, apart⟩ := List.pairwise_cons.1 apart
    have first := fire_of_mem (armed t List.mem_cons_self)
    rw [List.foldl_cons, ih ?_ apart, first]
    · simp [start, cancel]
    · intro u hu
      rw [first]
      refine mem_cancel_timers.2 ⟨armed u (List.mem_cons_of_mem _ hu), ?_⟩
      rw [Path.same_comm]
      exact others u hu

theorem completes_jobs (c : Coordinator) (w : World) (jobs : List Job) :
    (jobs.foldl (fun c job => c.complete w job.number) c).jobs =
      c.jobs.filter fun j => jobs.all fun job => decide (j.number ≠ job.number) := by
  induction jobs generalizing c with
  | nil => simp
  | cons job rest ih =>
    rw [List.foldl_cons, ih, complete_jobs]
    simp only [leave, List.filter_filter, List.all_cons, Bool.and_comm]

end Coordinator

namespace Session

variable {s : Session} {key : Path}

theorem fireDue_keys (sound : s.coordinator.Sound) (key : Path) :
    (s.fireDue.coordinator.jobs.map (·.key)).filter (·.same key) =
      (s.coordinator.jobs.map (·.key)).filter (·.same key) ++
        ((s.coordinator.timersOf key).filter (·.due ≤ s.world.clock)).map (·.key) := by
  unfold fireDue
  rw [Coordinator.fires_jobs _ (fun t ht => (List.mem_filter.1 ht).1) (sound.apart.filter _),
    List.filter_append]
  congr 1
  unfold Coordinator.timersOf
  rw [List.filter_map, List.filter_filter, List.filter_filter]
  simp [Bool.and_comm]

theorem settle_jobs (released : s.held = false) : s.settle.coordinator.jobs = [] := by
  have still : s.fireDue.held = false := released
  unfold settle
  simp only [still, Bool.false_eq_true, if_false]
  unfold completeAll
  simp only
  rw [Coordinator.completes_jobs, List.filter_eq_nil_iff]
  intro j hj all
  have := List.all_eq_true.1 all j hj
  simp at this

theorem sights_completes (jobs : List Job) (unread : ∀ j ∈ jobs, j.result = none) (w : World)
    (down : Bool) (key : Path) :
    sights key (jobs.flatMap (·.completeEvents w down)) =
      if down then []
      else ((jobs.map (·.key)).filter (·.same key)).map fun k => .stored (w.measure k) := by
  induction jobs with
  | nil => cases down <;> rfl
  | cons job rest ih =>
    have first := unread job List.mem_cons_self
    have further := ih fun j hj => unread j (List.mem_cons_of_mem _ hj)
    rw [List.flatMap_cons, sights_append, further]
    unfold Job.completeEvents sights
    rw [first]
    cases down <;> by_cases same : job.key.same key = true <;>
      simp [List.filterMap_cons, Event.sight?, same]

theorem stores_eq_sights (key : Path) (log : List Event) :
    (stores key log).map (·.2) = (sights key log).filterMap Sight.stored? := by
  unfold stores sights
  rw [List.map_filterMap, List.filterMap_filterMap]
  apply List.filterMap_congr
  intro e _
  cases e with
  | saved _ k =>
    by_cases same : k.same key = true <;>
      simp [Event.storeOf?, Event.sight?, Sight.stored?, same]
  | finished _ k _ kept =>
    cases kept <;> by_cases same : k.same key = true <;>
      simp [Event.storeOf?, Event.sight?, Sight.stored?, same]
  | _ => rfl

/-- The bundle of a file is the one that the file saw stored last. -/
theorem Run.lookup?_cache_eq {t : Session} {log : List Event} (run : Run s log t)
    (sound : s.coordinator.Sound) (key : Path) :
    Snapshot.lookup? t.coordinator.cache key =
      ((sights key log).filterMap Sight.stored?).getLast?.or
        (Snapshot.lookup? s.coordinator.cache key) := by
  rw [run.lookup?_cache sound, ← stores_eq_sights, List.getLast?_map]

theorem sights_fired (due : List Timer) (clock : Nat) (key : Path) :
    sights key (due.map (.fired · clock)) = [] := by
  unfold sights
  rw [List.filterMap_map, List.filterMap_eq_nil_iff]
  intro t _
  rfl

theorem filterMap_stored (f : Path → Bundle) (paths : List Path) :
    (paths.map fun path => Sight.stored (f path)).filterMap Sight.stored? = paths.map f := by
  rw [List.filterMap_map]
  exact congrFun List.filterMap_eq_map paths

@[simp] theorem settle_held (s : Session) : s.settle.held = s.held := by
  unfold settle
  simp only
  split_ifs <;> rfl

/-- The timers that are due are those with no time left. -/
theorem lane_due (s : Session) (key : Path) :
    ((s.lane key).timers.filter (·.2 = 0)).map (·.1) =
      ((s.coordinator.timersOf key).filter (·.due ≤ s.world.clock)).map (·.key) := by
  simp only [lane, List.filter_map, List.map_map]
  congr 1
  apply List.filter_congr
  intro t _
  simp only [Function.comp_apply, decide_eq_decide]
  omega

theorem lane_settle_timers (sound : s.coordinator.Sound) (key : Path) :
    (s.settle.lane key).timers = (s.lane key).timers.filter (·.2 ≠ 0) := by
  simp only [lane, settle_timersOf sound, settle_world, List.filter_map]
  congr 1
  apply List.filter_congr
  intro t _
  simp only [Function.comp_apply, decide_eq_decide]
  omega

theorem sights_settleEvents (sound : s.coordinator.Sound) (unread : Unread s.coordinator)
    (key : Path) :
    sights key s.settleEvents =
      if s.held || s.coordinator.shutDown then []
      else ((s.lane key).jobs ++ ((s.lane key).timers.filter (·.2 = 0)).map (·.1)).map fun path =>
        .stored (s.world.measure path) := by
  have reads := sights_completes _ (invariant_unread.fireDue unread) s.world
    s.coordinator.shutDown key
  rw [fireDue_keys sound, ← lane_due] at reads
  unfold settleEvents
  rw [sights_append, sights_fired, List.nil_append]
  cases held : s.held with
  | true => simp [sights]
  | false =>
    simp only [Bool.false_eq_true, if_false, Bool.false_or]
    exact reads

theorem lane_settle_eq (sound : s.coordinator.Sound) (key : Path) :
    s.settle.lane key = { s.lane key with
      timers := (s.lane key).timers.filter (·.2 ≠ 0)
      jobs := (s.settle.lane key).jobs
      cached := (s.settle.lane key).cached } := by
  ext1
  · exact (run_settle sound).settings_eq
  · exact congrArg World.tree (settle_world s)
  · exact settle_held s
  · exact settle_shutDown sound
  · exact lane_settle_timers sound key
  · rfl
  · rfl

/-- A lane settles as its session does. -/
theorem lane_settle (sound : s.coordinator.Sound) (unread : Unread s.coordinator) (key : Path) :
    (sights key s.settleEvents, s.settle.lane key) = (s.lane key).settle s.world.wall := by
  have cached : (s.settle.lane key).cached = _ := (run_settle sound).lookup?_cache_eq sound key
  rw [sights_settleEvents sound unread] at cached ⊢
  rw [lane_settle_eq sound, cached]
  cases held : s.held with
  | true =>
    have jobs : (s.settle.lane key).jobs =
        (s.lane key).jobs ++ ((s.lane key).timers.filter (·.2 = 0)).map (·.1) := by
      rw [lane_due]
      have still : s.fireDue.held = true := held
      unfold settle
      simp only [still, if_true]
      exact fireDue_keys sound key
    rw [Lane.settle_of_held (l := s.lane key) held, jobs]
    rfl
  | false =>
    have jobs : (s.settle.lane key).jobs = [] := by
      simp [lane, settle_jobs held]
    rw [jobs]
    cases down : s.coordinator.shutDown with
    | true =>
      rw [Lane.settle_of_down (l := s.lane key) held down]
      rfl
    | false =>
      rw [Lane.settle_of_up (l := s.lane key) held down]
      simp only [Bool.or_false, Bool.false_eq_true, if_false]
      rw [filterMap_stored, List.getLast?_map]
      rfl

/-! ## Saves -/

theorem isFresh_lane {path : Path} (same : path.same key = true) (now : Instant) :
    s.coordinator.isFresh path now = (s.lane key).isFresh now := by
  unfold Coordinator.isFresh Lane.isFresh
  rw [Snapshot.lookup?_congr same]
  rfl

theorem lane_save_of_same {path : Path} (same : (s.world.key path).same key = true) :
    ((s.coordinator.save s.world path).1,
      { s with coordinator := (s.coordinator.save s.world path).2 }.lane key) =
        (s.lane key).save s.world.wall path := by
  unfold Coordinator.save Lane.save
  rw [isFresh_lane same]
  have shuts : (s.lane key).down = s.coordinator.shutDown := rfl
  have settings : (s.lane key).settings = s.coordinator.settings := rfl
  rw [shuts, settings]
  split_ifs
  · rfl
  · rfl
  · rfl
  · refine Prod.ext rfl ?_
    simp only [lane, Coordinator.timersOf_arm_of_same same, List.map_singleton,
      Nat.add_sub_cancel_left]
    rfl

theorem lane_save_of_not_same {path : Path} (other : (s.world.key path).same key = false) :
    { s with coordinator := (s.coordinator.save s.world path).2 }.lane key = s.lane key := by
  obtain ⟨-, e⟩ | ⟨-, e⟩ | ⟨-, e⟩ | ⟨-, e⟩ := Coordinator.save_cases s.coordinator s.world path
  · rw [e]
  · rw [e]
  · rw [e]
    rfl
  · rw [e]
    simp only [lane, Coordinator.timersOf_arm_of_not_same other]
    rfl

theorem lane_saveAll (s : Session) (key : Path) (paths : List Path) :
    (sights key (s.coordinator.saveEvents s.world paths),
      { s with coordinator := (s.coordinator.saveAll s.world paths).2 }.lane key) =
        (s.lane key).saveAll s.world.wall
          (paths.filter fun p => ((s.lane key).key p).same key) := by
  induction paths generalizing s with
  | nil => rfl
  | cons path rest ih =>
    have further := ih { s with coordinator := (s.coordinator.save s.world path).2 }
    by_cases same : (s.world.key path).same key = true
    · have first := lane_save_of_same same
      have kept : (path :: rest).filter (fun p => ((s.lane key).key p).same key) =
          path :: rest.filter fun p => ((s.lane key).key p).same key := List.filter_cons_of_pos same
      have seen : sights key (s.coordinator.saveEvents s.world (path :: rest)) =
          .outcome (s.coordinator.save s.world path).1 ::
            sights key ((s.coordinator.save s.world path).2.saveEvents s.world rest) :=
        List.filterMap_cons_some (by simp [Event.sight?, same])
      rw [kept, seen]
      unfold Lane.saveAll
      rw [← first]
      exact congrArg (fun x => (Sight.outcome _ :: x.1, x.2)) further
    · have other : (s.world.key path).same key = false := by simpa using same
      have dropped : (path :: rest).filter (fun p => ((s.lane key).key p).same key) =
          rest.filter fun p => ((s.lane key).key p).same key := List.filter_cons_of_neg same
      have seen : sights key (s.coordinator.saveEvents s.world (path :: rest)) =
          sights key ((s.coordinator.save s.world path).2.saveEvents s.world rest) :=
        List.filterMap_cons_none (by simp [Event.sight?, other])
      rw [lane_save_of_not_same other] at further
      rw [dropped, seen]
      exact further

/-! ## Forced measurements -/

end Session

namespace Coordinator

variable {c : Coordinator}

theorem force_of_up (sound : c.Sound) (up : c.shutDown = false) (w : World) (path : Path) :
    (c.force w path).2 =
      (((c.cancel (w.key path)).start (w.key path) .forced).leave c.nextJob).store
      (w.key path) (w.measure (w.key path)) := by
  have started : ⟨c.nextJob, w.key path, .forced, none⟩ ∈
      ((c.cancel (w.key path)).start (w.key path) .forced).jobs := mem_start_jobs.2 (.inr rfl)
  unfold force
  rw [if_neg (by simp [up])]
  exact complete_of_mem ((sound.cancel _).start _ _) started w

theorem force_jobs (sound : c.Sound) (w : World) (path : Path) :
    (c.force w path).2.jobs = c.jobs := by
  cases up : c.shutDown with
  | true =>
    unfold force
    rw [if_pos up]
  | false =>
    rw [force_of_up sound up, store_jobs]
    show (c.jobs ++ [_]).filter _ = c.jobs
    rw [List.filter_append, List.filter_eq_self.2]
    · simp [cancel]
    · intro j hj
      have := sound.numbered j hj
      simp only [ne_eq, decide_eq_true_eq]
      omega

end Coordinator

namespace Session

variable {s : Session} {key : Path}

theorem timersOf_force_of_same (sound : s.coordinator.Sound) (up : s.coordinator.shutDown = false)
    {path : Path} (same : (s.world.key path).same key = true) :
    (s.coordinator.force s.world path).2.timersOf key = [] := by
  have gone := Coordinator.timersOf_cancel_of_same (c := s.coordinator) same
  unfold Coordinator.timersOf at gone ⊢
  rw [Coordinator.force_of_up sound up, Coordinator.store_timers]
  exact gone

theorem sights_forceEvents (c : Coordinator) (w : World) (key path : Path) :
    sights key (c.forceEvents w path) =
      if c.shutDown then []
      else if (w.key path).same key then [.stored (w.measure (w.key path))] else [] := by
  have completes := sights_completes [⟨c.nextJob, w.key path, .forced, none⟩] (by simp) w false key
  rw [List.flatMap_singleton] at completes
  unfold Coordinator.forceEvents
  cases c.shutDown with
  | true => rfl
  | false =>
    refine completes.trans ?_
    cases same : (w.key path).same key <;> simp [same]

theorem lane_force_eq (sound : s.coordinator.Sound) (key path : Path) :
    let after := { s with coordinator := (s.coordinator.force s.world path).2 }.lane key
    after = { s.lane key with timers := after.timers, cached := after.cached } := by
  intro after
  ext1
  · exact (run_force sound path).settings_eq
  · rfl
  · rfl
  · exact Coordinator.force_shutDown s.coordinator s.world path
  · rfl
  · simp only [after, lane, Coordinator.force_jobs sound]
  · rfl

theorem lane_force (sound : s.coordinator.Sound) (key path : Path) :
    (sights key (s.coordinator.forceEvents s.world path),
      { s with coordinator := (s.coordinator.force s.world path).2 }.lane key) =
        if (s.world.key path).same key then (s.lane key).force s.world.wall path 1
        else ([], s.lane key) := by
  have cached :
      ({ s with coordinator := (s.coordinator.force s.world path).2 }.lane key).cached = _ :=
    (run_force sound path).lookup?_cache_eq sound key
  rw [sights_forceEvents] at cached ⊢
  cases down : s.coordinator.shutDown with
  | true =>
    rw [Lane.force_of_down (l := s.lane key) down, ite_self, Coordinator.force]
    simp [down]
  | false =>
    rw [Lane.force_of_up (l := s.lane key) down, lane_force_eq sound, cached]
    cases same : (s.world.key path).same key with
    | true =>
      simp only [lane, timersOf_force_of_same sound down same, down]
      rfl
    | false =>
      simp only [lane, Coordinator.timersOf_force_of_not_same same, down]
      rfl

theorem lane_forceTimes (sound : s.coordinator.Sound) (key path : Path) (times : Nat) :
    (sights key (s.forceTimesEvents path times), (s.forceTimes path times).2.lane key) =
      if (s.world.key path).same key then (s.lane key).force s.world.wall path times
      else ([], s.lane key) := by
  induction times generalizing s with
  | zero =>
    rw [Lane.force_zero, ite_self]
    rfl
  | succ n ih =>
    have first := lane_force sound key path
    have rest := ih (s := { s with coordinator := (s.coordinator.force s.world path).2 })
      ((run_force sound path).sound sound)
    rw [forceTimes_succ]
    unfold forceTimesEvents
    rw [sights_append, Lane.force_succ]
    cases same : (s.world.key path).same key with
    | true =>
      simp only [same, if_true] at first rest
      rw [← first, if_pos rfl]
      exact congrArg (fun x => (_ ++ x.1, x.2)) rest
    | false =>
      simp only [same, Bool.false_eq_true, if_false] at first rest
      obtain ⟨unseen, still⟩ := Prod.mk.inj first
      rw [still] at rest
      rw [unseen]
      exact rest

theorem forceTimes_fst (s : Session) (path : Path) (times : Nat) :
    (s.forceTimes path times).1 =
      if s.coordinator.shutDown || times = 0 then none
      else some (s.world.measure (s.world.key path)) := by
  have once (c : Coordinator) : (c.force s.world path).1 =
      if c.shutDown then none else some (s.world.measure (s.world.key path)) := by
    unfold Coordinator.force
    split_ifs <;> rfl
  fun_induction forceTimes s path times with
  | case1 s => simp
  | case2 s bundle c forced => simpa [forced] using once s.coordinator
  | case3 s n c ih =>
    have still : c.shutDown = s.coordinator.shutDown := Coordinator.force_shutDown _ _ _
    rw [ih once]
    simp [still]

/-! ## Steps -/

theorem due_le_skipToLast {t : Timer} (ht : t ∈ s.coordinator.timers) :
    t.due ≤ s.skipToLast.world.clock := by
  unfold skipToLast
  simp only
  generalize s.world.clock = clock
  generalize s.coordinator.timers = timers at ht ⊢
  induction timers generalizing clock with
  | nil => simp at ht
  | cons u rest ih =>
    rcases List.mem_cons.1 ht with rfl | later
    · exact Nat.le_trans (Nat.le_max_right _ _) (le_foldl_max_due _ _)
    · exact ih _ later

theorem lane_skipToLast (s : Session) (key : Path) :
    s.skipToLast.lane key = (s.lane key).expire := by
  ext1
  · rfl
  · rfl
  · rfl
  · rfl
  · show (s.coordinator.timersOf key).map _ = ((s.coordinator.timersOf key).map _).map _
    rw [List.map_map]
    apply List.map_congr_left
    intro t ht
    have := due_le_skipToLast (Coordinator.mem_timersOf.1 ht).1
    simp only [Function.comp_apply, Prod.mk.injEq, true_and]
    omega
  · rfl
  · rfl

theorem lane_waitIdle (sound : s.coordinator.Sound) (unread : Unread s.coordinator) (key : Path) :
    (sights key s.waitIdleEvents, s.waitIdle.lane key) = (s.lane key).waitIdle s.world.wall := by
  have first := lane_settle (s := { s with held := false }) sound unread key
  have sound' := (run_settle (s := { s with held := false }) sound).sound sound
  have second := lane_settle (s := { s with held := false }.settle.skipToLast) sound'
    (invariant_unread.settle (s := { s with held := false }) unread) key
  rw [lane_skipToLast] at second
  have wall : { s with held := false }.settle.skipToLast.world.wall = s.world.wall := by
    have still := congrArg World.wall (settle_world { s with held := false })
    exact still
  rw [wall] at second
  have events : sights key s.waitIdleEvents = sights key { s with held := false }.settleEvents ++
      sights key { s with held := false }.settle.skipToLast.settleEvents := by
    unfold waitIdleEvents
    rw [sights_append]
    rfl
  unfold Lane.waitIdle
  rw [events]
  have released : ({ s.lane key with held := false } : Lane).settle s.world.wall = _ := first.symm
  rw [released]
  exact congrArg (fun x => (_ ++ x.1, x.2)) second

/-- A lane does a step as its session does. -/
theorem lane_act (sound : s.coordinator.Sound) (unread : Unread s.coordinator) (key : Path)
    (next : Step) :
    (sights key (s.actEvents next), (s.act next).2.lane key) =
      (s.lane key).act key s.world.wall next := by
  cases next with
  | save path => exact lane_saveAll s key [path]
  | saves paths => exact lane_saveAll s key paths
  | warmUp root => exact lane_saveAll s key _
  | force path times => exact lane_forceTimes sound key path times
  | waitIdle => exact lane_waitIdle sound unread key
  | advance millis =>
    refine Prod.ext rfl ?_
    ext1
    · rfl
    · rfl
    · rfl
    · rfl
    · show (s.coordinator.timersOf key).map _ = ((s.coordinator.timersOf key).map _).map _
      rw [List.map_map]
      apply List.map_congr_left
      intro t _
      simp only [Function.comp_apply, Prod.mk.injEq, true_and]
      exact Nat.sub_add_eq _ _ _
    · rfl
    · rfl
  | shutdown | get | all | hold | release | subscribe | updates | edit => rfl

theorem answersTo_act (s : Session) (key : Path) (next : Step) :
    next.answersTo key s.world (s.act next).1 = (s.lane key).answers key s.world.wall next := by
  cases next with
  | get path =>
    show (if (s.world.key path).same key then [Sight.answered (s.coordinator.get? s.world path)]
      else []) = if (s.world.key path).same key then [.answered (s.lane key).cached] else []
    split_ifs with same
    · rw [Coordinator.get?, Snapshot.lookup?_congr same]
      rfl
    · rfl
  | force path times =>
    show (if (s.world.key path).same key then [Sight.answered (s.forceTimes path times).1]
        else []) = _
    rw [forceTimes_fst]
    rfl
  | _ => rfl

theorem act_wall (s : Session) (next : Step) : (s.act next).2.world.wall = s.world.wall := by
  cases next with
  | force path times => exact congrArg World.wall (forceTimes_world s path times)
  | waitIdle =>
    have first := congrArg World.wall (settle_world { s with held := false })
    exact (congrArg World.wall (settle_world { s with held := false }.settle.skipToLast)).trans
      first
  | _ => rfl

/-- What a step does to the lane of a file, and what the file sees of it, is what the lane does by
itself. -/
theorem lane_step (sound : s.coordinator.Sound) (unread : Unread s.coordinator) (key : Path)
    (next : Step) :
    (s.stepSights key next, (s.step next).2.lane key) =
      (s.lane key).step key s.world.wall next := by
  have acts := lane_act sound unread key next
  have settles := lane_settle ((run_act sound next).sound sound)
    (invariant_unread.act unread next) key
  rw [act_wall] at settles
  unfold Lane.step stepSights stepEvents
  rw [← acts, sights_append, answersTo_act]
  exact congrArg (fun x => (_ ++ x.1 ++ _, x.2)) settles

end Session

end CodeGauge
