import Mathlib.Data.List.Induction
import CodeGauge.Coordinator.Session
import CodeGauge.Proofs.Coordinator.Sound

/-!
# Runs

A session as a labelled transition system. `Coordinator.Moves` says what a coordinator can do next:
a timer that is due goes off now or later, and a computation reads the files and finishes whenever
it gets to it, so computations overlap and end in any order. `Session.Moves` adds what happens
around the coordinator: the clock and the time of day move, files change, subscribers come and ask.
Every move carries an `Event` with what shows of it, and a `Session.Run` collects the events in a
log.

A warm-up is the series of saves of the files it finds, and anything may happen between two of them.
A hold keeps computations waiting; here they may wait anyway, so a hold takes no move away.

A save is one move, and so are a forced start and the shutdown. The coordinator does each of them in
parts under different locks: a save looks at the shutdown flag, then at the cache, and then arms its
timer, and the shutdown sets the flag before it drops the timers. So a thread that has seen the flag
down may arm a timer behind a shutdown by another thread. Runs in which threads meet between such
parts are not runs here, and nothing is said of them. Timers that go off behind a replacement or a
shutdown are in `Coordinator.Interleaved`, and there is no such assumption about them.
-/

namespace CodeGauge

/-! ## The working directory -/

namespace FileTree

theorem put_cwd (t : FileTree) (loc : Location) (node : Node) : (t.put loc node).cwd = t.cwd := by
  unfold put
  split_ifs <;> rfl

theorem makeDirectories_cwd {t made : FileTree} {loc last : Location} {segments : List Bytes}
    (h : t.makeDirectories loc segments = some (made, last)) : made.cwd = t.cwd := by
  fun_induction makeDirectories t loc segments with
  | case1 t loc => simp_all
  | case2 t loc segment rest idle ih => exact ih h
  | case3 t loc rest idle ih => exact ih h
  | case4 t loc segment rest idle up next walked found ih => exact ih h
  | case5 => simp at h
  | case6 t loc segment rest idle up walked new ih => rw [ih h, put_cwd]
  | case7 => simp at h
  | case8 => simp at h

theorem remove_cwd (t : FileTree) (p : Path) : (t.remove p).cwd = t.cwd := by
  unfold remove
  split <;> rfl

theorem place_cwd (t : FileTree) (p : Path) (node : Node) : (t.place p node).cwd = t.cwd := by
  unfold place
  split
  · split_ifs
    · split
      next made _ there =>
        have kept := makeDirectories_cwd there
        split_ifs
        · rw [put_cwd, kept]
        · exact kept
      · rfl
    · rfl
  · rfl

/-- No change moves the working directory. -/
theorem edit_cwd (t : FileTree) (p : Path) (change : Edit) : (t.edit p change).cwd = t.cwd := by
  cases change with
  | write bytes => exact (place_cwd _ _ _).trans (remove_cwd t p)
  | makeDirectory => exact (place_cwd _ _ _).trans (remove_cwd t p)
  | makeLink target =>
    simp only [edit]
    split_ifs
    · exact (place_cwd _ _ _).trans (remove_cwd t p)
    · exact remove_cwd t p
  | remove => exact remove_cwd t p

end FileTree

/-! ## Moves -/

/-- What happens to a coordinator and around it, with what shows of it. -/
inductive Event where
  /-- A save was noticed, at some time of the clock. -/
  | saved (path key : Path) (outcome : SaveOutcome) (clock : Nat)
  /-- A forced computation started. -/
  | forced (path key : Path)
  /-- A forced computation was refused. -/
  | refused (path : Path)
  /-- A timer went off and its computation started, at some time of the clock. -/
  | fired (timer : Timer) (clock : Nat)
  /-- A computation read the files. -/
  | read (number : Nat) (key : Path) (bundle : Bundle)
  /-- A computation finished, and its bundle was kept or discarded. If it was forced, it answers
  with the bundle that was kept, or with nothing. -/
  | finished (number : Nat) (key : Path) (bundle : Bundle) (kept : Bool)
  | shutDown
  | waited (millis : Nat)
  | dated (now : Instant)
  | edited (path : Path) (change : Edit)
  | held (on : Bool)
  | subscribed
  | drained (updates : Option Updates)

/-- Whether an event leaves the coordinator as it is. -/
def Event.isOutside : Event → Bool
  | waited _ | dated _ | edited _ _ | held _ | subscribed | drained _ => true
  | _ => false

/-- What a coordinator can do next. -/
inductive Coordinator.Moves (w : World) (c : Coordinator) : Event → Coordinator → Prop where
  | save (path : Path) :
      Moves w c (.saved path (w.key path) (c.save w path).1 w.clock) (c.save w path).2
  | force (path : Path) (up : c.shutDown = false) :
      Moves w c (.forced path (w.key path)) ((c.cancel (w.key path)).start (w.key path) .forced)
  | refuse (path : Path) (down : c.shutDown = true) : Moves w c (.refused path) c
  | fire (t : Timer) (armed : t ∈ c.timers) (due : t.due ≤ w.clock) :
      Moves w c (.fired t w.clock) (c.fire t.key t.generation)
  | read (j : Job) (started : j ∈ c.jobs) (unread : j.result = none) :
      Moves w c (.read j.number j.key (w.measure j.key)) (c.readFiles w j.number)
  | finish (j : Job) (bundle : Bundle) (started : j ∈ c.jobs) (read : j.result = some bundle) :
      Moves w c (.finished j.number j.key bundle (!c.shutDown)) (c.finish j.number)
  | shutdown : Moves w c .shutDown c.shutdown

theorem Coordinator.Moves.sound {w : World} {c c' : Coordinator} {e : Event} (h : Moves w c e c')
    (sound : c.Sound) : c'.Sound := by
  cases h with
  | save path => exact sound.save w path
  | force path => exact (sound.cancel _).start _ _
  | refuse => exact sound
  | fire t armed => exact sound.fire armed
  | read j => exact sound.readFiles w j.number
  | finish j bundle started read => exact sound.finish started read
  | shutdown => exact sound.shutdown

/-- Only the shutdown shuts a coordinator down. -/
theorem Coordinator.Moves.shutDown_eq {w : World} {c c' : Coordinator} {e : Event}
    (h : Moves w c e c') (other : e ≠ .shutDown) : c'.shutDown = c.shutDown := by
  cases h with
  | save path => exact save_shutDown c w path
  | force | refuse | read => rfl
  | fire t => exact fire_shutDown c t.key t.generation
  | finish j => exact finish_shutDown c j.number
  | shutdown => exact absurd rfl other

theorem Coordinator.Moves.settings_eq {w : World} {c c' : Coordinator} {e : Event}
    (h : Moves w c e c') : c'.settings = c.settings := by
  cases h with
  | save path => exact save_settings c w path
  | force | refuse | read | shutdown => rfl
  | fire t armed =>
    rw [fire_of_mem armed]
    rfl
  | finish j => exact finish_settings c j.number

/-! ## Runs -/

namespace Session

/-- What can happen next in a session. -/
inductive Moves : Session → Event → Session → Prop where
  | work {s : Session} {e : Event} {c : Coordinator}
      (h : Coordinator.Moves s.world s.coordinator e c) : Moves s e { s with coordinator := c }
  | wait (s : Session) (millis : Nat) :
      Moves s (.waited millis)
        { s with world := { s.world with clock := s.world.clock + millis } }
  | date (s : Session) (now : Instant) :
      Moves s (.dated now) { s with world := { s.world with wall := now } }
  | edit (s : Session) (path : Path) (change : Edit) :
      Moves s (.edited path change)
        { s with world := { s.world with tree := s.world.tree.edit path change } }
  | hold (s : Session) (on : Bool) : Moves s (.held on) { s with held := on }
  | subscribe (s : Session) :
      Moves s .subscribed { s with subscription := some s.coordinator.published.length }
  | drain (s : Session) :
      Moves s (.drained (s.subscription.map s.updatesSince))
        { s with subscription := s.subscription.map fun _ => s.coordinator.published.length }

/-- A series of moves from a session to another, with the log of what happened. -/
inductive Run (s : Session) : List Event → Session → Prop where
  | start : Run s [] s
  | move {log : List Event} {t u : Session} {e : Event} :
      Run s log t → Moves t e u → Run s (log ++ [e]) u

variable {s t u : Session} {e : Event} {log more : List Event}

/-- A move is one of the coordinator in a world that stands still, or leaves the coordinator
alone. -/
theorem Moves.cases (h : Moves s e t) :
    (Coordinator.Moves s.world s.coordinator e t.coordinator ∧ t.world = s.world) ∨
      (e.isOutside = true ∧ t.coordinator = s.coordinator) := by
  cases h with
  | work h => exact .inl ⟨h, rfl⟩
  | wait | date | edit | hold | subscribe | drain => exact .inr ⟨rfl, rfl⟩

theorem Moves.sound (h : Moves s e t) (sound : s.coordinator.Sound) : t.coordinator.Sound := by
  obtain ⟨move, -⟩ | ⟨-, same⟩ := h.cases
  · exact move.sound sound
  · rwa [same]

theorem Run.sound (h : Run s log t) (sound : s.coordinator.Sound) : t.coordinator.Sound := by
  induction h with
  | start => exact sound
  | move _ h ih => exact h.sound ih

theorem Moves.shutDown_eq (h : Moves s e t) (other : e ≠ .shutDown) :
    t.coordinator.shutDown = s.coordinator.shutDown := by
  obtain ⟨move, -⟩ | ⟨-, same⟩ := h.cases
  · exact move.shutDown_eq other
  · rw [same]

theorem Run.shutDown_eq (h : Run s log t) (other : .shutDown ∉ log) :
    t.coordinator.shutDown = s.coordinator.shutDown := by
  induction h with
  | start => rfl
  | move _ last ih =>
    simp only [List.mem_append, List.mem_singleton, not_or] at other
    rw [last.shutDown_eq (Ne.symm other.2), ih other.1]

theorem Run.settings_eq (h : Run s log t) : t.coordinator.settings = s.coordinator.settings := by
  induction h with
  | start => rfl
  | move _ last ih =>
    obtain ⟨move, -⟩ | ⟨-, same⟩ := last.cases
    · rw [move.settings_eq, ih]
    · rw [same, ih]

theorem Run.single (h : Moves s e t) : Run s [e] t := .move .start h

theorem Run.trans (h : Run s log t) (h' : Run t more u) : Run s (log ++ more) u := by
  induction h' with
  | start => rwa [List.append_nil]
  | move _ last ih =>
    rw [← List.append_assoc]
    exact .move ih last

/-- A run with nothing in its log goes nowhere. -/
theorem Run.eq_of_nil (h : Run s [] t) : t = s := by
  generalize empty : ([] : List Event) = l at h
  cases h with
  | start => rfl
  | move => simp at empty

/-- A run starts with the first event of its log. -/
theorem Run.uncons (h : Run s (e :: log) u) : ∃ t, Moves s e t ∧ Run t log u := by
  generalize whole : e :: log = l at h
  induction h generalizing log with
  | start => simp at whole
  | @move earlier t u f before last ih =>
    rcases List.eq_nil_or_concat log with rfl | ⟨middle, g, rfl⟩
    · obtain ⟨rfl, rfl⟩ : earlier = [] ∧ e = f := by
        cases earlier <;> simp_all
      rw [before.eq_of_nil] at last
      exact ⟨u, last, .start⟩
    · rw [List.concat_eq_append, ← List.cons_append] at whole
      obtain ⟨same, rfl⟩ := List.append_inj' whole rfl |>.imp_right List.singleton_inj.1
      obtain ⟨v, first, rest⟩ := ih same
      rw [List.concat_eq_append]
      exact ⟨v, first, rest.move last⟩

/-- A run can be cut anywhere in its log. -/
theorem Run.split (h : Run s (log ++ more) u) : ∃ t, Run s log t ∧ Run t more u := by
  induction log generalizing s with
  | nil => exact ⟨s, .start, h⟩
  | cons e log ih =>
    obtain ⟨t, first, rest⟩ := h.uncons
    obtain ⟨v, middle, last⟩ := ih rest
    exact ⟨v, (Run.single first).trans middle, last⟩

theorem Moves.key_eq (h : Moves s e t) (path : Path) : t.world.key path = s.world.key path := by
  cases h with
  | work | wait | date | hold | subscribe | drain => rfl
  | edit p change =>
    unfold World.key FileTree.cwdPath
    rw [FileTree.edit_cwd]

/-- A path names the same file all along a run. -/
theorem Run.key_eq (h : Run s log t) (path : Path) : t.world.key path = s.world.key path := by
  induction h with
  | start => rfl
  | move _ h ih => rw [h.key_eq, ih]

theorem sound_new (world : World) (settings : Settings) :
    (Session.new world settings).coordinator.Sound := .new settings

end Session

end CodeGauge
