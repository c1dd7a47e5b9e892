import Mathlib.Data.List.DropRight
import CodeGauge.Proofs.Coordinator.Shutdown
import CodeGauge.Proofs.Coordinator.Timers

/-!
# Accounts

No work comes out of nothing and none gets lost. A log tells what has become of every timer that was
armed (`Session.fates`): it waits, or it has fired, or it was cancelled by whatever came first. It
also tells which computations have finished, and who had started them (`Session.doneOrigins`). Along
every run these agree with the timers and the computations that the coordinator has (`Run.waiting`,
`Numbered`), and its counters agree with the log (`Counted`).

* `work_is_conserved`: so the books balance after every run and every session.
-/

namespace CodeGauge

/-! ## What has become of a timer -/

/-- What has become of a timer. -/
inductive Fate where
  | waiting
  | fired
  | cancelled
deriving DecidableEq

namespace Event

/-- Whether a save ends in the given way in this event. -/
def isOutcome (outcome : SaveOutcome) : Event → Bool
  | saved _ _ o _ => o = outcome
  | _ => false

/-- The file for which a timer is armed in this event. -/
def armedKey? : Event → Option Path
  | saved _ key .scheduled _ => some key
  | _ => none

/-- Whether a timer of the file stops waiting in this event, if there is one. -/
def endsWait (key : Path) : Event → Bool
  | saved _ k .scheduled _ => k.same key
  | forced _ k => k.same key
  | fired timer _ => timer.key.same key
  | shutDown => true
  | _ => false

def isFiring : Event → Bool
  | fired _ _ => true
  | _ => false

end Event

namespace Session

/-- What has become of a timer of the file in the events since it was armed. The first of them that
ends its wait decides. -/
def fate (key : Path) (since : List Event) : Fate :=
  match since.find? (·.endsWait key) with
  | none => .waiting
  | some e => if e.isFiring then .fired else .cancelled

/-- The timers that were armed, each with its file and what has become of it. -/
def fates : List Event → List (Path × Fate)
  | [] => []
  | e :: since =>
    match e.armedKey? with
    | some key => (key, fate key since) :: fates since
    | none => fates since

/-- The files whose timers still wait. -/
def waiting (log : List Event) : List Path :=
  ((fates log).filter (·.2 = .waiting)).map (·.1)

/-- The number of timers that were cancelled, by another one of the same file, by force or by the
shutdown. -/
def cancelled (log : List Event) : Nat := (fates log).countP (·.2 = .cancelled)

variable {log : List Event} {e : Event} {s t : Session} {c c' : Coordinator} {w : World}

theorem fate_concat (key : Path) (since : List Event) (e : Event) :
    fate key (since ++ [e]) =
      if fate key since = .waiting then fate key [e] else fate key since := by
  unfold fate
  rw [List.find?_append]
  cases since.find? (·.endsWait key) with
  | none => simp
  | some first => cases fires : first.isFiring <;> simp [fires]

/-- Only timers that wait have their fate changed by what happens next. -/
theorem fates_concat (log : List Event) (e : Event) :
    fates (log ++ [e]) =
      (fates log).map (fun x => (x.1, if x.2 = .waiting then fate x.1 [e] else x.2)) ++
        (e.armedKey?.map (·, Fate.waiting)).toList := by
  induction log with
  | nil => cases armed : e.armedKey? <;> simp [fates, armed, fate]
  | cons first rest ih =>
    cases armed : first.armedKey? with
    | none => simp [fates, armed, ih]
    | some key => simp [fates, armed, ih, fate_concat]

theorem fate_eq_waiting_iff (key : Path) (e : Event) :
    fate key [e] = .waiting ↔ e.endsWait key = false := by
  unfold fate
  cases ends : e.endsWait key with
  | false => simp [ends]
  | true => cases fires : e.isFiring <;> simp [ends, fires]

theorem fate_eq_fired_iff (key : Path) (e : Event) :
    fate key [e] = .fired ↔ e.endsWait key = true ∧ e.isFiring = true := by
  unfold fate
  cases ends : e.endsWait key with
  | false => simp [ends]
  | true => cases fires : e.isFiring <;> simp [ends, fires]

theorem waiting_concat (log : List Event) (e : Event) :
    waiting (log ++ [e]) = (waiting log).filter (!e.endsWait ·) ++ e.armedKey?.toList := by
  have last : ((e.armedKey?.map (·, Fate.waiting)).toList.filter (·.2 = .waiting)).map (·.1) =
      e.armedKey?.toList := by cases e.armedKey? <;> rfl
  unfold waiting
  rw [fates_concat, List.filter_append, List.map_append, last]
  congr 1
  induction fates log with
  | nil => rfl
  | cons x rest ih =>
    obtain ⟨key, f⟩ := x
    by_cases waits : f = .waiting
    · subst waits
      cases ends : e.endsWait key with
      | false =>
        have := (fate_eq_waiting_iff key e).2 ends
        simp [this, ends, ih]
      | true =>
        have : fate key [e] ≠ .waiting := by simp [fate_eq_waiting_iff, ends]
        simp [this, ends, ih]
    · simp [waits, ih]

/-- A timer gets its fate from the event that ends its wait. -/
theorem countP_fates_concat {f : Fate} (settled : f ≠ .waiting) (log : List Event) (e : Event) :
    (fates (log ++ [e])).countP (·.2 = f) =
      (fates log).countP (·.2 = f) + (waiting log).countP (fate · [e] = f) := by
  have last : (e.armedKey?.map (·, Fate.waiting)).toList.countP (·.2 = f) = 0 := by
    cases e.armedKey? <;> simp [Ne.symm settled]
  unfold waiting
  rw [fates_concat, List.countP_append, last, Nat.add_zero, List.countP_map, List.countP_map,
    List.countP_filter]
  induction fates log with
  | nil => rfl
  | cons x rest ih =>
    rw [List.countP_cons, List.countP_cons, List.countP_cons, ih]
    by_cases waits : x.2 = .waiting
    · simp [waits, Ne.symm settled, Nat.add_assoc]
    · simp [waits, Nat.add_right_comm]

theorem length_fates (log : List Event) :
    (fates log).length = log.countP (·.isOutcome .scheduled) := by
  induction log with
  | nil => rfl
  | cons e rest ih =>
    have both : e.armedKey?.isSome = e.isOutcome .scheduled := by
      cases e with
      | saved _ _ outcome _ => cases outcome <;> rfl
      | _ => rfl
    rw [List.countP_cons, ← both, ← ih]
    cases armed : e.armedKey? <;> simp [fates, armed]

theorem length_fates_eq (log : List Event) :
    (fates log).length =
      (waiting log).length + (fates log).countP (·.2 = .fired) + cancelled log := by
  unfold waiting cancelled
  rw [List.length_map, ← List.countP_eq_length_filter]
  induction fates log with
  | nil => rfl
  | cons x rest ih =>
    obtain ⟨key, f⟩ := x
    cases f <;> simp [ih] <;> omega

end Session

namespace Coordinator

variable {c c' : Coordinator} {w : World} {e : Event}

theorem cancel_keys (c : Coordinator) (key : Path) :
    (c.cancel key).timers.map (·.key) = (c.timers.map (·.key)).filter (!key.same ·) := by
  rw [List.filter_map]
  unfold cancel
  simp only [Function.comp_def, Path.same_comm]

theorem Sound.length_timersOf (h : c.Sound) {t : Timer} (ht : t ∈ c.timers) :
    (c.timersOf t.key).length = 1 := by
  have there : t ∈ c.timersOf t.key := mem_timersOf.2 ⟨ht, Path.same_self _⟩
  rcases h.timersOf_cases t.key with none_left | ⟨u, only⟩
  · simp [none_left] at there
  · rw [only, List.length_singleton]

/-- What a move does to the timers shows in its event. -/
theorem Moves.timerKeys (h : Moves w c e c') :
    c'.timers.map (·.key) =
      (c.timers.map (·.key)).filter (!e.endsWait ·) ++ e.armedKey?.toList := by
  have unchanged {f : Event} (none_ends : ∀ key, f.endsWait key = false)
      (unarmed : f.armedKey? = none) :
      c.timers.map (·.key) =
        (c.timers.map (·.key)).filter (!f.endsWait ·) ++ f.armedKey?.toList := by
    rw [unarmed, List.filter_eq_self.2 (by simp [none_ends])]
    exact (List.append_nil _).symm
  cases h with
  | save path =>
    obtain ⟨-, e⟩ | ⟨-, e⟩ | ⟨-, e⟩ | ⟨-, e⟩ := save_cases c w path <;> rw [e]
    · exact unchanged (fun _ => rfl) rfl
    · exact unchanged (fun _ => rfl) rfl
    · exact unchanged (fun _ => rfl) rfl
    · simp only [arm, List.map_append, cancel_keys]
      rfl
  | force path => exact (cancel_keys c _).trans (List.append_nil _).symm
  | fire t armed =>
    rw [fire_of_mem armed]
    exact (cancel_keys c _).trans (List.append_nil _).symm
  | finish j =>
    rw [finish_timers]
    exact unchanged (fun _ => rfl) rfl
  | refuse | read => exact unchanged (fun _ => rfl) rfl
  | shutdown => simp [Coordinator.shutdown, Event.endsWait, Event.armedKey?]

end Coordinator

namespace Session

theorem Run.waiting_eq {world : World} {settings : Settings}
    (run : Run (Session.new world settings) log s) :
    waiting log = s.coordinator.timers.map (·.key) := by
  induction run with
  | start => rfl
  | @move log t u e _ last ih =>
    rw [waiting_concat, ih]
    obtain ⟨move, -⟩ | ⟨outside, same⟩ := last.cases
    · exact move.timerKeys.symm
    · rw [same]
      cases e <;> simp_all [Event.isOutside, Event.endsWait, Event.armedKey?]

/-- Every timer that goes off was waiting. -/
theorem Run.countP_fired {world : World} {settings : Settings}
    (run : Run (Session.new world settings) log s) :
    (fates log).countP (·.2 = .fired) = log.countP Event.isFiring := by
  induction run with
  | start => rfl
  | @move log t u e before last ih =>
    rw [countP_fates_concat (by simp), ih, List.countP_append, before.waiting_eq]
    congr 1
    simp only [fate_eq_fired_iff, Bool.decide_and, Bool.decide_eq_true]
    cases fires : e.isFiring with
    | false => simp [fires]
    | true =>
      cases last with
      | work work =>
        cases work with
        | fire timer armed =>
          have one := (before.sound (sound_new world settings)).length_timersOf armed
          unfold Coordinator.timersOf at one
          rw [← List.countP_eq_length_filter] at one
          simp only [List.countP_map, Function.comp_def, Event.endsWait, Path.same_comm timer.key]
          simpa [Event.isFiring] using one
        | _ => simp [Event.isFiring] at fires
      | _ => simp [Event.isFiring] at fires

end Session

/-! ## Who started a computation -/

/-- What starts a computation in this event. -/
def Event.origin? : Event → Option JobOrigin
  | fired timer _ => some (.timer timer.generation)
  | forced _ _ => some .forced
  | _ => none

namespace Session

/-- What has started computations, in the order in which they started. They are numbered from
zero. -/
def origins (log : List Event) : List JobOrigin := log.filterMap Event.origin?

/-- What had started the computations that have finished. -/
def doneOrigins (log : List Event) : List JobOrigin :=
  (finishers log).filterMap fun number => (origins log)[number]?

/-- The log tells what started each computation, and all of them are under way or have finished. -/
structure Numbered (log : List Event) (c : Coordinator) : Prop where
  next : c.nextJob = (origins log).length
  underWay : ∀ j ∈ c.jobs, (origins log)[j.number]? = some j.origin
  done : ∀ number ∈ finishers log, number < (origins log).length
  all : (origins log).Perm (c.jobs.map (·.origin) ++ doneOrigins log)

theorem origins_concat (log : List Event) (e : Event) :
    origins (log ++ [e]) = origins log ++ e.origin?.toList := by
  unfold origins
  rw [List.filterMap_append]
  cases started : e.origin? <;> simp [started]

theorem finishers_concat (log : List Event) (e : Event) :
    finishers (log ++ [e]) = finishers log ++ e.finisher?.toList := by
  unfold finishers
  rw [List.filterMap_append]
  cases finished : e.finisher? <;> simp [finished]

theorem Numbered.new (settings : Settings) : Numbered [] (Coordinator.new settings) where
  next := rfl
  underWay := by simp [Coordinator.new]
  done := by simp [finishers]
  all := .refl _

/-- An event in which no computation starts or finishes. -/
theorem Numbered.idle (h : Numbered log c) (unstarted : e.origin? = none)
    (unfinished : e.finisher? = none) (next : c'.nextJob = c.nextJob)
    (jobs : c'.jobs.map (fun j => (j.number, j.origin)) =
      c.jobs.map fun j => (j.number, j.origin)) :
    Numbered (log ++ [e]) c' := by
  have origins_eq : origins (log ++ [e]) = origins log := by simp [origins_concat, unstarted]
  have finishers_eq : finishers (log ++ [e]) = finishers log := by
    simp [finishers_concat, unfinished]
  constructor
  · rw [next, h.next, origins_eq]
  · intro j hj
    have : (j.number, j.origin) ∈ c.jobs.map fun j => (j.number, j.origin) := by
      rw [← jobs]
      exact List.mem_map_of_mem hj
    obtain ⟨i, hi, same⟩ := List.mem_map.1 this
    obtain ⟨number, origin⟩ : i.number = j.number ∧ i.origin = j.origin := by simpa using same
    rw [origins_eq, ← number, ← origin]
    exact h.underWay i hi
  · rw [finishers_eq, origins_eq]
    exact h.done
  · have := congrArg (List.map Prod.snd) jobs
    simp only [List.map_map, Function.comp_def] at this
    unfold doneOrigins
    rw [finishers_eq, origins_eq, this]
    exact h.all

theorem Numbered.start (h : Numbered log c) {origin : JobOrigin} (key : Path)
    (starts : e.origin? = some origin) (unfinished : e.finisher? = none) :
    Numbered (log ++ [e]) ((c.cancel key).start key origin) := by
  have origins_eq : origins (log ++ [e]) = origins log ++ [origin] := by
    simp [origins_concat, starts]
  have finishers_eq : finishers (log ++ [e]) = finishers log := by
    simp [finishers_concat, unfinished]
  constructor
  · rw [origins_eq, List.length_append, ← h.next]
    rfl
  · intro j hj
    rw [origins_eq]
    rcases Coordinator.mem_start_jobs.1 hj with old | rfl
    · have known := h.underWay j old
      exact List.getElem?_append_left (List.getElem?_eq_some_iff.1 known).1 ▸ known
    · show (origins log ++ [origin])[c.nextJob]? = some origin
      rw [h.next, List.getElem?_concat_length]
  · intro number hn
    rw [finishers_eq] at hn
    rw [origins_eq, List.length_append]
    exact Nat.lt_add_right _ (h.done number hn)
  · have done_eq : doneOrigins (log ++ [e]) = doneOrigins log := by
      unfold doneOrigins
      rw [finishers_eq, origins_eq]
      apply List.filterMap_congr
      intro number hn
      exact List.getElem?_append_left (h.done number hn)
    rw [origins_eq, done_eq]
    simp only [Coordinator.start, List.map_append, List.map_singleton, List.append_assoc]
    refine (h.all.append_right [origin]).trans ?_
    rw [List.append_assoc]
    exact List.perm_append_comm.append_left _

theorem Numbered.finish (h : Numbered log c) (sound : c.Sound) {j : Job} (started : j ∈ c.jobs)
    {bundle : Bundle} (read : j.result = some bundle) {key : Path} {kept : Bool} :
    Numbered (log ++ [.finished j.number key bundle kept]) (c.finish j.number) := by
  have origins_eq : origins (log ++ [.finished j.number key bundle kept]) = origins log := by
    simp [origins_concat, Event.origin?]
  have finishers_eq : finishers (log ++ [.finished j.number key bundle kept]) =
      finishers log ++ [j.number] := by
    simp [finishers_concat, Event.finisher?]
  rw [Coordinator.finish_of_mem sound started read]
  constructor
  · rw [origins_eq, Coordinator.store_nextJob, ← h.next]
    rfl
  · intro i hi
    rw [Coordinator.store_jobs, Coordinator.mem_leave_jobs] at hi
    rw [origins_eq]
    exact h.underWay i hi.1
  · intro number hn
    rw [finishers_eq, List.mem_append, List.mem_singleton] at hn
    rw [origins_eq]
    rcases hn with old | rfl
    · exact h.done number old
    · rw [← h.next]
      exact sound.numbered j started
  · have done_eq : doneOrigins (log ++ [.finished j.number key bundle kept]) =
        doneOrigins log ++ [j.origin] := by
      unfold doneOrigins
      rw [finishers_eq, origins_eq, List.filterMap_append]
      simp [h.underWay j started]
    have left := (sound.perm_leave started).map (·.origin)
    rw [origins_eq, done_eq, Coordinator.store_jobs, ← List.append_assoc]
    exact (h.all.trans (left.append_right _)).trans (List.perm_append_singleton _ _).symm

theorem Numbered.moves (h : Numbered log c) (sound : c.Sound) (move : Coordinator.Moves w c e c') :
    Numbered (log ++ [e]) c' := by
  cases move with
  | save path =>
    refine h.idle rfl rfl (Coordinator.save_nextJob c w path) ?_
    rw [Coordinator.save_jobs]
  | force path => exact h.start _ rfl rfl
  | refuse | shutdown => exact h.idle rfl rfl rfl rfl
  | fire t armed =>
    rw [Coordinator.fire_of_mem armed]
    exact h.start _ rfl rfl
  | read j =>
    refine h.idle rfl rfl rfl ?_
    unfold Coordinator.readFiles
    rw [List.map_map]
    apply List.map_congr_left
    intro job _
    simp only [Function.comp_apply]
    split_ifs <;> rfl
  | finish j bundle started read => exact h.finish sound started read

theorem Run.numbered {world : World} {settings : Settings}
    (run : Run (Session.new world settings) log s) : Numbered log s.coordinator := by
  induction run with
  | start => exact .new settings
  | @move log t u e before last ih =>
    obtain ⟨move, -⟩ | ⟨outside, same⟩ := last.cases
    · exact ih.moves (before.sound (sound_new world settings)) move
    · refine ih.idle ?_ ?_ (by rw [same]) (by rw [same]) <;>
        cases e <;> simp_all [Event.isOutside, Event.origin?, Event.finisher?]

/-! ## Counters -/

end Session

namespace Coordinator

theorem store_stats (c : Coordinator) (key : Path) (bundle : Bundle) :
    (c.store key bundle).stats =
      { c.stats with discarded := c.stats.discarded + if c.shutDown then 1 else 0 } := by
  unfold store
  split_ifs <;> rfl

theorem store_published (c : Coordinator) (key : Path) (bundle : Bundle) :
    (c.store key bundle).published = c.published ++ if c.shutDown then [] else [key] := by
  unfold store
  split_ifs
  · exact (List.append_nil _).symm
  · rfl

end Coordinator

namespace Event

/-- The file for which a bundle is stored in this event. -/
def storedKey? : Event → Option Path
  | finished _ key _ true => some key
  | _ => none

end Event

namespace Session

/-- The files for which bundles were stored, in the order of the stores. -/
def storedKeys (log : List Event) : List Path := log.filterMap Event.storedKey?

theorem storedKeys_concat (log : List Event) (e : Event) :
    storedKeys (log ++ [e]) = storedKeys log ++ e.storedKey?.toList := by
  unfold storedKeys
  rw [List.filterMap_append]
  cases stored : e.storedKey? <;> simp [stored]

/-- The counters, the published keys and the cache of a coordinator agree with the log. -/
structure Counted (log : List Event) (c : Coordinator) : Prop where
  scheduled : c.stats.scheduled = log.countP (·.isOutcome .scheduled)
  ignoredFresh : c.stats.ignoredFresh = log.countP (·.isOutcome .fresh)
  computations : c.stats.computations = (finishers log).length
  kept : c.stats.computations = c.stats.discarded + c.published.length
  published : c.published = storedKeys log
  cached : ∀ key, c.cache.any (·.1.same key) = c.published.any (·.same key)

theorem Counted.new (settings : Settings) : Counted [] (Coordinator.new settings) :=
  ⟨rfl, rfl, rfl, rfl, rfl, fun _ => rfl⟩

/-- An event that is neither a save nor the end of a computation. -/
theorem Counted.idle (h : Counted log c) (unsaved : ∀ outcome, e.isOutcome outcome = false)
    (unfinished : e.finisher? = none) (stats : c'.stats = c.stats)
    (published : c'.published = c.published) (cache : c'.cache = c.cache) :
    Counted (log ++ [e]) c' := by
  have unstored : e.storedKey? = none := by
    cases e <;> simp_all [Event.finisher?, Event.storedKey?]
  constructor
  · simp [stats, h.scheduled, unsaved]
  · simp [stats, h.ignoredFresh, unsaved]
  · simp [stats, h.computations, finishers_concat, unfinished]
  · rw [stats, published, h.kept]
  · simp [published, h.published, storedKeys_concat, unstored]
  · intro key
    rw [cache, published, h.cached]

theorem Counted.save (h : Counted log c) (w : World) (path : Path) :
    Counted (log ++ [.saved path (w.key path) (c.save w path).1 w.clock]) (c.save w path).2 := by
  have unstored (outcome : SaveOutcome) :
      storedKeys (log ++ [.saved path (w.key path) outcome w.clock]) = storedKeys log := by
    simp [storedKeys_concat, Event.storedKey?]
  have unfinished (outcome : SaveOutcome) :
      finishers (log ++ [.saved path (w.key path) outcome w.clock]) = finishers log := by
    simp [finishers_concat, Event.finisher?]
  obtain ⟨-, e⟩ | ⟨-, e⟩ | ⟨-, e⟩ | ⟨-, e⟩ := Coordinator.save_cases c w path <;> rw [e]
  all_goals
    constructor
    · simp [h.scheduled, Event.isOutcome, Coordinator.arm]
    · simp [h.ignoredFresh, Event.isOutcome, Coordinator.arm]
    · rw [unfinished]
      exact h.computations
    · exact h.kept
    · rw [unstored]
      exact h.published
    · exact h.cached

theorem Counted.finish (h : Counted log c) (sound : c.Sound) {j : Job} (started : j ∈ c.jobs)
    {bundle : Bundle} (read : j.result = some bundle) :
    Counted (log ++ [.finished j.number j.key bundle (!c.shutDown)]) (c.finish j.number) := by
  have kept := h.kept
  rw [Coordinator.finish_of_mem sound started read]
  constructor
  · simp [Coordinator.store_stats, Coordinator.leave, h.scheduled, Event.isOutcome]
  · simp [Coordinator.store_stats, Coordinator.leave, h.ignoredFresh, Event.isOutcome]
  · simp [Coordinator.store_stats, Coordinator.leave, h.computations, finishers_concat,
      Event.finisher?]
  · simp only [Coordinator.store_stats, Coordinator.store_published, Coordinator.leave,
      List.length_append]
    cases c.shutDown with
    | true =>
      simp only [if_true, List.length_nil]
      omega
    | false =>
      simp only [Bool.false_eq_true, if_false, List.length_singleton]
      omega
  · rw [Coordinator.store_published, storedKeys_concat, ← h.published]
    cases down : c.shutDown <;> simp [Coordinator.leave, down, Event.storedKey?]
  · intro key
    cases down : c.shutDown with
    | true =>
      rw [Coordinator.store_of_down (c := c.leave j.number) down]
      exact h.cached key
    | false =>
      rw [Coordinator.store_of_up (c := c.leave j.number) down]
      simp [Coordinator.leave, Snapshot.any_store, h.cached]

theorem Counted.moves (h : Counted log c) (sound : c.Sound) (move : Coordinator.Moves w c e c') :
    Counted (log ++ [e]) c' := by
  cases move with
  | save path => exact h.save w path
  | finish j bundle started read => exact h.finish sound started read
  | fire t armed =>
    rw [Coordinator.fire_of_mem armed]
    exact h.idle (fun _ => rfl) rfl rfl rfl rfl
  | force | refuse | read | shutdown => exact h.idle (fun _ => rfl) rfl rfl rfl rfl

theorem Run.counted {world : World} {settings : Settings}
    (run : Run (Session.new world settings) log s) : Counted log s.coordinator := by
  induction run with
  | start => exact .new settings
  | @move log t u e before last ih =>
    obtain ⟨move, -⟩ | ⟨outside, same⟩ := last.cases
    · exact ih.moves (before.sound (sound_new world settings)) move
    · refine ih.idle ?_ ?_ (by rw [same]) (by rw [same]) (by rw [same]) <;>
        cases e <;> simp_all [Event.isOutside, Event.isOutcome, Event.finisher?]

/-! ## Subscribers -/

end Session

/-- Whether the subscriber comes or asks for updates in this event. -/
def Event.isAsking : Event → Bool
  | subscribed | drained _ => true
  | _ => false

theorem Coordinator.Moves.not_asking {w : World} {c c' : Coordinator} {e : Event}
    (h : Moves w c e c') : e.isAsking = false := by
  cases h <;> rfl

namespace Session

/-- The events since the subscriber came or last asked. -/
def sinceAsked (log : List Event) : List Event := log.rtakeWhile (!·.isAsking)

/-- A subscriber has seen what was published before the last time it asked. -/
structure Subscribed (log : List Event) (s : Session) : Prop where
  there : s.subscription.isSome = true ↔ .subscribed ∈ log
  seen : ∀ seen, s.subscription = some seen →
    seen + (storedKeys (sinceAsked log)).length = s.coordinator.published.length

theorem Subscribed.quiet (h : Subscribed log s) (quiet : e.isAsking = false)
    (subscription : t.subscription = s.subscription)
    (published : t.coordinator.published = s.coordinator.published ++ e.storedKey?.toList) :
    Subscribed (log ++ [e]) t where
  there := by
    have : .subscribed ≠ e := by
      rintro rfl
      simp [Event.isAsking] at quiet
    simp [subscription, h.there, this]
  seen := by
    intro seen hseen
    rw [subscription] at hseen
    have := h.seen seen hseen
    unfold sinceAsked at this ⊢
    rw [List.rtakeWhile_concat_pos _ _ _ (by simp [quiet]), storedKeys_concat, published]
    simp only [List.length_append]
    omega

theorem Subscribed.asks (asks : e.isAsking = true)
    (there : t.subscription.isSome = true ↔ .subscribed ∈ log ++ [e])
    (seen : ∀ seen, t.subscription = some seen → seen = t.coordinator.published.length) :
    Subscribed (log ++ [e]) t where
  there := there
  seen := by
    intro n hn
    rw [seen n hn, sinceAsked, List.rtakeWhile_concat_neg _ _ _ (by simp [asks])]
    rfl

theorem Run.subscribed {world : World} {settings : Settings}
    (run : Run (Session.new world settings) log s) : Subscribed log s := by
  induction run with
  | start => exact ⟨by simp [Session.new], by simp [Session.new]⟩
  | @move log t u e before last ih =>
    have published := (before.move last).counted.published
    rw [storedKeys_concat, ← before.counted.published] at published
    cases last with
    | work work => exact ih.quiet work.not_asking rfl published
    | wait | date | edit | hold => exact ih.quiet rfl rfl published
    | subscribe =>
      apply Subscribed.asks rfl
      · simp
      · rintro seen ⟨⟩
        rfl
    | drain =>
      apply Subscribed.asks rfl
      · simpa using ih.there
      · intro seen hseen
        obtain ⟨_, -, rfl⟩ := Option.map_eq_some_iff.1 hseen
        rfl

/-! ## The books -/

/-- The books of a session balance with its log. -/
structure Balanced (log : List Event) (s : Session) : Prop where
  /-- Every save that was scheduled has armed a timer. -/
  scheduled : s.coordinator.stats.scheduled = log.countP (·.isOutcome .scheduled)
  /-- Such a timer waits, or it has fired and its computation is under way or has finished, or it
  was cancelled. -/
  timers : s.coordinator.stats.scheduled =
    s.coordinator.timers.length + s.coordinator.jobs.countP (·.origin ≠ .forced) +
      (doneOrigins log).countP (· ≠ .forced) + cancelled log
  ignoredFresh : s.coordinator.stats.ignoredFresh = log.countP (·.isOutcome .fresh)
  /-- A computation that has finished was started by a timer or by force. -/
  computations : s.coordinator.stats.computations =
    (doneOrigins log).countP (· ≠ .forced) + (doneOrigins log).countP (· = .forced)
  /-- A forced computation is under way or has finished. -/
  forced : log.countP (·.origin? = some .forced) =
    s.coordinator.jobs.countP (·.origin = .forced) + (doneOrigins log).countP (· = .forced)
  /-- All computations that were not discarded have stored a bundle. -/
  stored : s.coordinator.stats.computations =
    s.coordinator.stats.discarded + (storedKeys log).length
  published : s.coordinator.published = storedKeys log
  /-- The files in the cache are those that were ever published. -/
  cached : ∀ key, s.coordinator.cache.any (·.1.same key) = s.coordinator.published.any (·.same key)
  /-- A subscriber who asks gets or misses all that was stored since it last asked. -/
  drained : ∀ before after updates, log = before ++ .drained updates :: after →
    (updates.isSome = true ↔ .subscribed ∈ before) ∧
      ∀ u, updates = some u → u.count = min (storedKeys (sinceAsked before)).length 256 ∧
        u.count + u.lagged = (storedKeys (sinceAsked before)).length

/-- Computations that were started in some way are under way or have finished. -/
theorem Numbered.countP_origin? (h : Numbered log c) (p : JobOrigin → Bool) :
    log.countP (fun e => e.origin?.any p) =
      c.jobs.countP (fun j => p j.origin) + (doneOrigins log).countP p := by
  have counted := h.all.countP_eq p
  rw [List.countP_append, List.countP_map] at counted
  rw [← Function.comp_def p, ← counted]
  unfold origins
  rw [List.countP_filterMap]
  apply List.countP_congr
  intro e _
  cases e.origin? <;> simp

theorem Numbered.length_doneOrigins (h : Numbered log c) :
    (doneOrigins log).length = (finishers log).length := by
  unfold doneOrigins
  rw [List.length_filterMap_eq_countP, List.countP_eq_length]
  intro number hn
  simpa using h.done number hn

theorem Subscribed.updates (h : Subscribed log s) {u : Updates}
    (asked : s.subscription.map s.updatesSince = some u) :
    u.count = min (storedKeys (sinceAsked log)).length 256 ∧
      u.count + u.lagged = (storedKeys (sinceAsked log)).length := by
  obtain ⟨seen, hseen, rfl⟩ := Option.map_eq_some_iff.1 asked
  have news : (s.coordinator.published.drop seen).length =
      (storedKeys (sinceAsked log)).length := by
    have := h.seen seen hseen
    rw [List.length_drop]
    omega
  simp only [updatesSince, channelCapacity, news]
  exact ⟨trivial, by omega⟩

theorem Run.balanced {world : World} {settings : Settings}
    (run : Run (Session.new world settings) log s) : Balanced log s := by
  have counted := run.counted
  have numbered := run.numbered
  constructor
  · exact counted.scheduled
  · have fired := numbered.countP_origin? (· ≠ .forced)
    have firings : log.countP (fun e => e.origin?.any (· ≠ .forced)) =
        log.countP Event.isFiring := by
      apply List.countP_congr
      intro e _
      cases e <;> simp [Event.origin?, Event.isFiring]
    have waits := congrArg List.length run.waiting_eq
    rw [List.length_map] at waits
    have all := length_fates_eq log
    rw [run.countP_fired, ← firings, fired, waits, length_fates] at all
    rw [counted.scheduled]
    omega
  · exact counted.ignoredFresh
  · rw [counted.computations, ← numbered.length_doneOrigins,
      List.length_eq_countP_add_countP (· ≠ .forced)]
    simp
  · rw [← numbered.countP_origin? fun origin => decide (origin = .forced)]
    apply List.countP_congr
    intro e _
    cases e.origin? <;> simp
  · rw [← counted.published]
    exact counted.kept
  · exact counted.published
  · exact counted.cached
  · rintro before after updates rfl
    obtain ⟨t, first, second⟩ := run.split
    obtain ⟨u, move, -⟩ := second.uncons
    cases move with
    | drain =>
      have subscribed := first.subscribed
      refine ⟨?_, fun u asked => subscribed.updates asked⟩
      rw [Option.isSome_map, subscribed.there]
    | work work => cases work

/-- No computation that is under way was forced. -/
def Unforced (c : Coordinator) : Prop := ∀ j ∈ c.jobs, j.origin ≠ .forced

theorem invariant_unforced : Invariant Unforced where
  save c w path h := by
    unfold Unforced
    rwa [Coordinator.save_jobs]
  fire c key generation h := by
    unfold Coordinator.fire
    split_ifs
    · intro j hj
      rcases Coordinator.mem_start_jobs.1 hj with old | rfl
      · exact h j old
      · simp
    · exact h
  complete c w number h := by
    intro j hj
    rw [Coordinator.complete_jobs, Coordinator.mem_leave_jobs] at hj
    exact h j hj.1
  force c w path h := by
    unfold Coordinator.force
    split_ifs
    · exact h
    · intro j hj
      rw [Coordinator.complete_jobs, Coordinator.mem_leave_jobs] at hj
      -- The forced computation itself has left.
      rcases Coordinator.mem_start_jobs.1 hj.1 with old | rfl
      · exact h j old
      · exact absurd rfl hj.2
  shutdown c h := h

/-- Whatever has happened, the books balance. In a session, where a measurement that is forced ends
with its step, the computations that have finished are those of timers and all that were forced. -/
theorem work_is_conserved (world : World) (settings : Settings) :
    (∀ log s, Run (Session.new world settings) log s → Balanced log s) ∧
      ∀ steps, let s := (Session.new world settings).after steps
        let log := ((Session.new world settings).logs steps).flatten
        Balanced log s ∧ s.coordinator.stats.computations =
          (doneOrigins log).countP (· ≠ .forced) + log.countP (·.origin? = some .forced) := by
  refine ⟨fun log s run => run.balanced, ?_⟩
  intro steps s log
  have balanced : Balanced log s := (run_after (sound_new world settings) steps).balanced
  have unforced : Unforced s.coordinator :=
    invariant_unforced.after (by simp [Unforced, Session.new, Coordinator.new]) steps
  have none_left : s.coordinator.jobs.countP (·.origin = .forced) = 0 := by
    rw [List.countP_eq_zero]
    intro j hj
    simpa using unforced j hj
  refine ⟨balanced, ?_⟩
  rw [balanced.computations, balanced.forced, none_left, Nat.zero_add]

/-- Of four timers one is replaced, one gives way to a forced measurement, one is dropped by the
shutdown, and one has fired before, with a computation that is held and then discarded. -/
theorem four_timers_are_accounted_for :
    let path := fun name => Path.ofString name
    let start := Session.new .bare .default
    let steps : List Step := [.subscribe, .save (path "A.java"), .save (path "A.java"),
      .save (path "B.java"), .force (path "B.java") 1, .hold, .advance 500, .save (path "C.java"),
      .shutdown, .updates, .release]
    let s := start.after steps
    let log := (start.logs steps).flatten
    Run start log s ∧ Balanced log s ∧ s.coordinator.stats = ⟨4, 0, 2, 1⟩ ∧ cancelled log = 3 ∧
      doneOrigins log = [.forced, .timer 1] ∧ (storedKeys log).length = 1 := by
  intro path start steps s log
  have run : Run start log s := run_after (sound_new _ _) steps
  have conserved := work_is_conserved .bare .default
  exact ⟨run, conserved.1 log s run, by decide, by decide, by decide, by decide⟩

end Session

end CodeGauge
