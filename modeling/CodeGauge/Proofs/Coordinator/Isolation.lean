import Mathlib.Data.List.Forall2
import CodeGauge.Proofs.Coordinator.Lane

/-!
# Files do not interfere

What happens to a file in a session does not depend on what is done to other files. If all saves,
forced measurements and lookups of other files are taken out of a session (`Session.only`), the file
sees the same outcomes and the same bundles, although all files share the timers, the computations
and the clock, and although waiting until nothing is left to be done takes less time now.

Times of day show in the bundles and in what counts as fresh. The same steps may come at other times
of day as well, if that does not change what is fresh; then the bundles are the same but for their
timestamps.

* `Lane.step_of_part`: a lane takes notice only of the part of a step that concerns its file;
* `Lane.Alike.step`: lanes that are the same up to their bundles stay so;
* `files_do_not_interfere`: so two sessions show the same of a file.
-/

namespace CodeGauge

def Bundle.undated (b : Bundle) : Bundle := { b with timestamp := .epoch }

def Sight.map (f : Bundle → Bundle) : Sight → Sight
  | outcome o => .outcome o
  | stored b => .stored (f b)
  | answered b => .answered (b.map f)

/-! ## The part of a session that concerns a file -/

namespace Session

/-- The part of a step that concerns the file. Saves, forced measurements and lookups of other files
are left out, and of several saves those of other files; all else concerns all files. -/
def Step.part? (key : Path) (tree : FileTree) (settings : Settings) : Step → Option Step
  | .save path => if (Path.absolute tree.cwdPath path).same key then some (.save path) else none
  | .get path => if (Path.absolute tree.cwdPath path).same key then some (.get path) else none
  | .force path times =>
    if (Path.absolute tree.cwdPath path).same key then some (.force path times) else none
  | .saves paths => some (.saves (paths.filter fun p => (Path.absolute tree.cwdPath p).same key))
  | .warmUp root =>
    some (.saves ((Workspace.gather tree root settings.extension settings.excluded).filter fun p =>
      (Path.absolute tree.cwdPath p).same key))
  | next => some next

/-- The session at a time of day. -/
def dated (s : Session) (now : Instant) : Session :=
  { s with world := { s.world with wall := now } }

/-- The session after steps that come at the given times of day. -/
def afterDated (s : Session) (plan : List (Instant × Step)) : Session :=
  plan.foldl (fun s (now, next) => ((s.dated now).step next).2) s

/-- What a file sees of such steps. -/
def seen (key : Path) (s : Session) : List (Instant × Step) → List Sight
  | [] => []
  | (now, next) :: rest =>
    (s.dated now).stepSights key next ++ ((s.dated now).step next).2.seen key rest

/-- The part of such steps that concerns the file. -/
def only (key : Path) (s : Session) : List (Instant × Step) → List (Instant × Step)
  | [] => []
  | (now, next) :: rest =>
    let others := ((s.dated now).step next).2.only key rest
    match next.part? key s.world.tree s.coordinator.settings with
    | some part => (now, part) :: others
    | none => others

end Session

namespace Lane

variable {l l' : Lane} {key : Path} {now now' : Instant}

/-- Nothing is left to be done for the file at this time. -/
structure Settled (l : Lane) : Prop where
  timers : ∀ t ∈ l.timers, t.2 ≠ 0
  jobs : l.held = false → l.jobs = []

theorem settled_settle (l : Lane) (now : Instant) : (l.settle now).2.Settled := by
  cases held : l.held with
  | true =>
    rw [settle_of_held held]
    exact ⟨by simp, by simp [held]⟩
  | false =>
    cases down : l.down with
    | true =>
      rw [settle_of_down held down]
      exact ⟨by simp, by simp⟩
    | false =>
      rw [settle_of_up held down]
      exact ⟨by simp, by simp⟩

theorem Settled.settle_eq (h : l.Settled) (now : Instant) : l.settle now = ([], l) := by
  have late : l.timers.filter (·.2 ≠ 0) = l.timers := by
    rw [List.filter_eq_self]
    simpa using h.timers
  have none_due : l.timers.filter (·.2 = 0) = [] := by
    rw [List.filter_eq_nil_iff]
    simpa using h.timers
  cases held : l.held with
  | true =>
    rw [settle_of_held held, late, none_due]
    simp
  | false =>
    have idle := h.jobs held
    cases down : l.down with
    | true =>
      rw [settle_of_down held down, late, ← idle]
    | false =>
      rw [settle_of_up held down, late, none_due, List.map_nil, List.append_nil, idle]
      exact Prod.ext rfl (Lane.ext rfl rfl rfl rfl rfl idle.symm rfl)

/-- A step that does not concern the file does nothing to its lane. -/
theorem step_of_no_part (settled : l.Settled) {next : Session.Step}
    (h : next.part? key l.tree l.settings = none) : l.step key now next = ([], l) := by
  have apart {path : Path} {part : Session.Step}
      (h : (if (l.key path).same key then some part else none) = none) :
      (l.key path).same key = false := by
    by_contra same
    simp [same] at h
  have idle : l.act key now next = ([], l) ∧ l.answers key now next = [] := by
    cases next with
    | save path => simp [act, answers, apart h, saveAll]
    | get path => simp [act, answers, apart h]
    | force path times => simp [act, answers, apart h]
    | _ => simp [Session.Step.part?] at h
  unfold step
  rw [idle.1, idle.2]
  simp [settled.settle_eq now]

/-- A lane takes notice only of the part of a step that concerns its file. -/
theorem step_of_part {next part : Session.Step} (h : next.part? key l.tree l.settings = some part) :
    l.step key now part = l.step key now next := by
  have own {path : Path} {p : Session.Step}
      (h : (if (l.key path).same key then some p else none) = some part) : p = part := by
    split_ifs at h
    exact Option.some.inj h
  have again (paths : List Path) :
      l.act key now (.saves (paths.filter fun p => (l.key p).same key)) =
        l.saveAll now (paths.filter fun p => (l.key p).same key) := by
    simp [act]
  cases next with
  | save path => rw [← own h]
  | get path => rw [← own h]
  | force path times => rw [← own h]
  | saves paths =>
    obtain rfl := Option.some.inj h
    exact congrArg (fun x => (x.1 ++ (x.2.settle now).1 ++ [], (x.2.settle now).2)) (again paths)
  | warmUp root =>
    obtain rfl := Option.some.inj h
    exact congrArg (fun x => (x.1 ++ (x.2.settle now).1 ++ [], (x.2.settle now).2)) (again _)
  | _ => rw [← Option.some.inj h]

end Lane

/-! ## Lanes that are alike -/

/-- What has to be known of bundles that are alike, and of the times of day at which a step comes in
two sessions: what is measured then is alike, and what is alike is fresh then in both or in none. -/
structure Matching (freshness : Nat) (dates : Instant → Instant → Prop)
    (alike : Bundle → Bundle → Prop) : Prop where
  measures : ∀ now now', dates now now' → ∀ tree path,
    alike (Workspace.bundle tree now path) (Workspace.bundle tree now' path)
  fresh : ∀ now now', dates now now' → ∀ b b', alike b b' →
    (Instant.age now b.timestamp < freshness * 1000000 ↔
      Instant.age now' b'.timestamp < freshness * 1000000)

inductive Sight.Alike (alike : Bundle → Bundle → Prop) : Sight → Sight → Prop where
  | outcome (o : SaveOutcome) : Alike alike (.outcome o) (.outcome o)
  | stored {b b' : Bundle} (h : alike b b') : Alike alike (.stored b) (.stored b')
  | answered {b b' : Option Bundle} (h : Option.Rel alike b b') :
      Alike alike (.answered b) (.answered b')

namespace Lane

/-- Lanes that are the same but for their bundles, which are alike. -/
def Alike (alike : Bundle → Bundle → Prop) (l l' : Lane) : Prop :=
  ∃ cached, Option.Rel alike l.cached cached ∧ l' = { l with cached }

/-- Two lanes are alike after a step, and their files saw alike of it. -/
structure Agree (alike : Bundle → Bundle → Prop) (x y : List Sight × Lane) : Prop where
  sights : List.Forall₂ (Sight.Alike alike) x.1 y.1
  lanes : Alike alike x.2 y.2

variable {dates : Instant → Instant → Prop} {alike : Bundle → Bundle → Prop} {l l' : Lane}
  {now now' : Instant}

theorem Alike.timers (h : Alike alike l l') : l'.timers = l.timers := by
  obtain ⟨c, -, rfl⟩ := h
  rfl

theorem Alike.cached (h : Alike alike l l') : Option.Rel alike l.cached l'.cached := by
  obtain ⟨c, cached, rfl⟩ := h
  exact cached

theorem Alike.isFresh (h : Alike alike l l') (matching : Matching l.settings.freshness dates alike)
    (together : dates now now') : l'.isFresh now' = l.isFresh now := by
  obtain ⟨c, cached, rfl⟩ := h
  unfold Lane.isFresh
  cases old : l.cached with
  | none =>
    rw [old] at cached
    cases cached
    rfl
  | some b =>
    rw [old] at cached
    cases cached with
    | some alike => exact decide_eq_decide.2 (matching.fresh now now' together _ _ alike).symm

theorem isFresh_save (l : Lane) (now : Instant) (path : Path) (other : Instant) :
    (l.save now path).2.isFresh other = l.isFresh other := by
  unfold save
  split_ifs <;> rfl

theorem Alike.save (h : Alike alike l l') (fresh : l'.isFresh now' = l.isFresh now) (path : Path) :
    (l'.save now' path).1 = (l.save now path).1 ∧
      Alike alike (l.save now path).2 (l'.save now' path).2 := by
  obtain ⟨c, cached, rfl⟩ := h
  unfold Lane.save
  rw [fresh]
  split_ifs <;> exact ⟨rfl, c, cached, rfl⟩

theorem Alike.saveAll (h : Alike alike l l') (fresh : l'.isFresh now' = l.isFresh now)
    (paths : List Path) : Agree alike (l.saveAll now paths) (l'.saveAll now' paths) := by
  induction paths generalizing l l' with
  | nil => exact ⟨.nil, h⟩
  | cons path rest ih =>
    obtain ⟨outcome, saved⟩ := h.save fresh path
    have further := ih saved (by rw [isFresh_save, isFresh_save, fresh])
    refine ⟨?_, further.lanes⟩
    show List.Forall₂ _ (Sight.outcome (l.save now path).1 :: _)
      (Sight.outcome (l'.save now' path).1 :: _)
    rw [outcome]
    exact .cons (.outcome _) further.sights

theorem forall₂_replicate {b b' : Bundle} (h : alike b b') (n : Nat) :
    List.Forall₂ (Sight.Alike alike) (.replicate n (.stored b)) (.replicate n (.stored b')) := by
  induction n with
  | zero => exact .nil
  | succ n ih => exact .cons (.stored h) ih

theorem Alike.force (h : Alike alike l l')
    (measures : ∀ tree path,
      alike (Workspace.bundle tree now path) (Workspace.bundle tree now' path))
    (path : Path) (times : Nat) :
    Agree alike (l.force now path times) (l'.force now' path times) := by
  obtain ⟨c, cached, rfl⟩ := h
  rcases Bool.eq_false_or_eq_true l.down with down | up
  · rw [force_of_down down, force_of_down (l := { l with cached := c }) down]
    exact ⟨.nil, c, cached, rfl⟩
  · cases times with
    | zero =>
      rw [force_zero, force_zero]
      exact ⟨.nil, c, cached, rfl⟩
    | succ n =>
      rw [force_of_up up, force_of_up (l := { l with cached := c }) up]
      exact ⟨forall₂_replicate (measures _ _) _, _, .some (measures _ _), rfl⟩

theorem Alike.settle (h : Alike alike l l')
    (measures : ∀ tree path,
      alike (Workspace.bundle tree now path) (Workspace.bundle tree now' path)) :
    Agree alike (l.settle now) (l'.settle now') := by
  obtain ⟨c, cached, rfl⟩ := h
  rcases Bool.eq_false_or_eq_true l.held with held | released
  · rw [settle_of_held held, settle_of_held (l := { l with cached := c }) held]
    exact ⟨.nil, c, cached, rfl⟩
  rcases Bool.eq_false_or_eq_true l.down with down | up
  · rw [settle_of_down released down, settle_of_down (l := { l with cached := c }) released down]
    exact ⟨.nil, c, cached, rfl⟩
  · rw [settle_of_up released up, settle_of_up (l := { l with cached := c }) released up]
    generalize l.jobs ++ (l.timers.filter (·.2 = 0)).map (·.1) = jobs
    refine ⟨?_, _, ?_, rfl⟩
    · show List.Forall₂ _ (jobs.map _) (jobs.map _)
      rw [List.forall₂_map_left_iff, List.forall₂_map_right_iff, List.forall₂_same]
      exact fun path _ => .stored (measures _ _)
    · show Option.Rel _ ((jobs.getLast?.map _).or _) ((jobs.getLast?.map _).or _)
      cases jobs.getLast? with
      | none => exact cached
      | some path => exact .some (measures _ _)

theorem Agree.append {x y x' y' : List Sight × Lane} (h : Agree alike x y)
    (h' : Agree alike x' y') :
    Agree alike (x.1 ++ x'.1, x'.2) (y.1 ++ y'.1, y'.2) :=
  ⟨List.rel_append h.sights h'.sights, h'.lanes⟩

theorem Alike.waitIdle (h : Alike alike l l')
    (measures : ∀ tree path,
      alike (Workspace.bundle tree now path) (Workspace.bundle tree now' path)) :
    Agree alike (l.waitIdle now) (l'.waitIdle now') := by
  have released : Alike alike { l with held := false } { l' with held := false } := by
    obtain ⟨c, cached, rfl⟩ := h
    exact ⟨c, cached, rfl⟩
  have first := released.settle measures
  have expired : Alike alike ({ l with held := false }.settle now).2.expire
      ({ l' with held := false }.settle now').2.expire := by
    obtain ⟨c, cached, same⟩ := first.lanes
    rw [same]
    exact ⟨c, cached, rfl⟩
  exact first.append (expired.settle measures)

theorem Alike.act (h : Alike alike l l') (matching : Matching l.settings.freshness dates alike)
    (together : dates now now') (key : Path) (next : Session.Step) :
    Agree alike (l.act key now next) (l'.act key now' next) := by
  have fresh := h.isFresh matching together
  have measures := matching.measures now now' together
  have waits := h.waitIdle measures
  obtain ⟨c, cached, rfl⟩ := id h
  cases next with
  | save path => exact h.saveAll fresh _
  | saves paths => exact h.saveAll fresh _
  | warmUp root => exact h.saveAll fresh _
  | force path times =>
    show Agree alike (if (l.key path).same key then _ else _)
      (if (l.key path).same key then _ else _)
    split_ifs
    · exact h.force measures path times
    · exact ⟨.nil, h⟩
  | waitIdle => exact waits
  | advance | hold | release | shutdown | edit | get | all | subscribe | updates =>
    exact ⟨.nil, c, cached, rfl⟩

theorem Alike.answers (h : Alike alike l l') (matching : Matching l.settings.freshness dates alike)
    (together : dates now now') (key : Path) (next : Session.Step) :
    List.Forall₂ (Sight.Alike alike) (l.answers key now next) (l'.answers key now' next) := by
  have measures := matching.measures now now' together
  obtain ⟨c, cached, rfl⟩ := h
  cases next with
  | get path =>
    show List.Forall₂ _ (if (l.key path).same key then _ else _)
      (if (l.key path).same key then _ else _)
    split_ifs
    · exact .cons (.answered cached) .nil
    · exact .nil
  | force path times =>
    show List.Forall₂ _ (if (l.key path).same key then [Sight.answered (if _ then _ else _)] else _)
      (if (l.key path).same key then [Sight.answered (if _ then _ else _)] else _)
    split_ifs
    · exact .cons (.answered .none) .nil
    · exact .cons (.answered (.some (measures _ _))) .nil
    · exact .nil
  | _ => exact .nil

/-- Lanes that are alike stay so. -/
theorem Alike.step (h : Alike alike l l') (matching : Matching l.settings.freshness dates alike)
    (together : dates now now') (key : Path) (next : Session.Step) :
    Agree alike (l.step key now next) (l'.step key now' next) := by
  have acts := h.act matching together key next
  have settles := acts.lanes.settle (matching.measures now now' together)
  have answers := h.answers matching together key next
  exact ⟨List.rel_append (List.rel_append acts.sights settles.sights) answers, settles.lanes⟩

end Lane

/-! ## Two sessions -/

namespace Session

variable {dates : Instant → Instant → Prop} {alike : Bundle → Bundle → Prop} {s s' : Session}
  {key : Path} {settings : Settings} {plan rest : List (Instant × Step)}

/-- What holds of a session between steps. -/
structure Steady (settings : Settings) (key : Path) (s : Session) : Prop where
  sound : s.coordinator.Sound
  unread : Unread s.coordinator
  settings : s.coordinator.settings = settings
  settled : (s.lane key).Settled

theorem Steady.new (world : World) (settings : Settings) (key : Path) :
    Steady settings key (Session.new world settings) where
  sound := sound_new world settings
  unread := by simp [Unread, Session.new, Coordinator.new]
  settings := rfl
  settled := ⟨by simp [lane, Session.new, Coordinator.new, Coordinator.timersOf],
    by simp [lane, Session.new, Coordinator.new]⟩

/-- The lane of a session between steps does the next step by itself. -/
theorem Steady.lane_step (h : Steady settings key s) (now : Instant) (next : Step) :
    ((s.dated now).stepSights key next, ((s.dated now).step next).2.lane key) =
      (s.lane key).step key now next :=
  Session.lane_step (s := s.dated now) h.sound h.unread key next

theorem Steady.step (h : Steady settings key s) (now : Instant) (next : Step) :
    Steady settings key ((s.dated now).step next).2 where
  sound := (run_step (s := s.dated now) h.sound next).sound h.sound
  unread := invariant_unread.settle (invariant_unread.act (s := s.dated now) h.unread next)
  settings := (run_step (s := s.dated now) h.sound next).settings_eq.trans h.settings
  settled := by
    have does := congrArg Prod.snd (h.lane_step now next)
    simp only at does
    rw [does]
    exact Lane.settled_settle _ now

/-- Steps, and the part of them that concerns the file, at times of day that match. -/
inductive Matched (key : Path) (dates : Instant → Instant → Prop) :
    Session → List (Instant × Step) → List (Instant × Step) → Prop where
  | nil (s : Session) : Matched key dates s [] []
  | drop {s : Session} {now : Instant} {next : Step} {plan rest : List (Instant × Step)}
      (part : next.part? key s.world.tree s.coordinator.settings = none) :
      Matched key dates ((s.dated now).step next).2 plan rest →
      Matched key dates s ((now, next) :: plan) rest
  | keep {s : Session} {now now' : Instant} {next next' : Step} {plan rest : List (Instant × Step)}
      (part : next.part? key s.world.tree s.coordinator.settings = some next')
      (together : dates now now') :
      Matched key dates ((s.dated now).step next).2 plan rest →
      Matched key dates s ((now, next) :: plan) ((now', next') :: rest)

theorem Matched.agree (h : Matched key dates s plan rest)
    (matching : Matching settings.freshness dates alike) (steady : Steady settings key s)
    (steady' : Steady settings key s') (lanes : Lane.Alike alike (s.lane key) (s'.lane key)) :
    Lane.Agree alike (s.seen key plan, (s.afterDated plan).lane key)
      (s'.seen key rest, (s'.afterDated rest).lane key) := by
  induction h generalizing s' with
  | nil s => exact ⟨.nil, lanes⟩
  | @drop s now next plan rest part _ ih =>
    have does := steady.lane_step now next
    rw [Lane.step_of_no_part steady.settled part] at does
    obtain ⟨unseen, still⟩ := Prod.mk.inj does
    have further := ih (steady.step now next) steady' (by rw [still]; exact lanes)
    refine ⟨?_, further.lanes⟩
    show List.Forall₂ _ ((s.dated now).stepSights key next ++ _) _
    rw [unseen]
    exact further.sights
  | @keep s now now' next next' plan rest part together _ ih =>
    have matching' : Matching (s.lane key).settings.freshness dates alike := by
      rw [show (s.lane key).settings = settings from steady.settings]
      exact matching
    have first := lanes.step matching' together key next
    have part' : next.part? key (s'.lane key).tree (s'.lane key).settings = some next' := by
      obtain ⟨c, -, same⟩ := lanes
      rw [same]
      exact part
    rw [← Lane.step_of_part part', ← steady.lane_step now next,
      ← steady'.lane_step now' next'] at first
    have further := ih (steady.step now next) (steady'.step now' next') first.lanes
    exact first.append further

theorem matched_only (key : Path) (s : Session) (plan : List (Instant × Step)) :
    Matched key Eq s plan (s.only key plan) := by
  induction plan generalizing s with
  | nil => exact .nil s
  | cons first plan ih =>
    obtain ⟨now, next⟩ := first
    unfold only
    cases part : next.part? key s.world.tree s.coordinator.settings with
    | none => exact .drop part (ih _)
    | some next' => exact .keep part rfl (ih _)

theorem matched_of_steps (dates₁ dates₂ : List Instant) {plan rest : List (Instant × Step)}
    (there : ∀ x ∈ plan, x.1 ∈ dates₁) (there' : ∀ x ∈ rest, x.1 ∈ dates₂)
    (steps : rest.map (·.2) = (s.only key plan).map (·.2)) :
    Matched key (fun now now' => now ∈ dates₁ ∧ now' ∈ dates₂) s plan rest := by
  induction plan generalizing s rest with
  | nil =>
    obtain rfl : rest = [] := by simpa [only] using steps
    exact .nil s
  | cons first plan ih =>
    obtain ⟨now, next⟩ := first
    have later : ∀ x ∈ plan, x.1 ∈ dates₁ := fun x hx => there x (List.mem_cons_of_mem _ hx)
    unfold only at steps
    cases part : next.part? key s.world.tree s.coordinator.settings with
    | none =>
      simp only [part] at steps
      exact .drop part (ih later there' steps)
    | some next' =>
      simp only [part, List.map_cons] at steps
      cases rest with
      | nil => simp at steps
      | cons first' rest =>
        obtain ⟨now', next''⟩ := first'
        obtain ⟨rfl, more⟩ := List.cons.inj steps
        refine .keep part ⟨there _ List.mem_cons_self, there' _ List.mem_cons_self⟩
          (ih later ?_ more)
        exact fun x hx => there' x (List.mem_cons_of_mem _ hx)

/-! ## What a file sees -/

/-- No bundle of such a session is ever older than the freshness window: its times of day are all
closer to each other. -/
def Unexpired (settings : Settings) (plan : List (Instant × Step)) : Prop :=
  ∀ x ∈ plan, ∀ y ∈ plan, Instant.age x.1 y.1 < settings.freshness * 1000000

/-- A file cannot tell two series of steps apart, if all that counts of a bundle is what is
given. -/
structure Undisturbed (key : Path) (f : Bundle → Bundle) (s : Session)
    (plan rest : List (Instant × Step)) : Prop where
  pending : (s.afterDated plan).coordinator.timersOf key = [] ↔
    (s.afterDated rest).coordinator.timersOf key = []
  /-- The outcomes of saves, the bundles that are stored and those that are answered, in order. -/
  seen : (s.seen key plan).map (Sight.map f) = (s.seen key rest).map (Sight.map f)
  cached : (Snapshot.lookup? (s.afterDated plan).coordinator.cache key).map f =
    (Snapshot.lookup? (s.afterDated rest).coordinator.cache key).map f

theorem lane_timers_eq_nil : (s.lane key).timers = [] ↔ s.coordinator.timersOf key = [] :=
  List.map_eq_nil_iff

theorem map_eq_of_rel {f : Bundle → Bundle} (same : ∀ b b', alike b b' → f b = f b')
    {x y : Option Bundle} (h : Option.Rel alike x y) : x.map f = y.map f := by
  cases h with
  | none => rfl
  | some h => exact congrArg some (same _ _ h)

theorem map_eq_of_forall₂ {f : Bundle → Bundle} (same : ∀ b b', alike b b' → f b = f b')
    {xs ys : List Sight} (h : List.Forall₂ (Sight.Alike alike) xs ys) :
    xs.map (Sight.map f) = ys.map (Sight.map f) := by
  induction h with
  | nil => rfl
  | cons first _ ih =>
    rw [List.map_cons, List.map_cons, ih]
    cases first with
    | outcome o => rfl
    | stored h => rw [Sight.map, Sight.map, same _ _ h]
    | answered h => rw [Sight.map, Sight.map, map_eq_of_rel same h]

theorem Matched.undisturbed {f : Bundle → Bundle} {world : World}
    (h : Matched key dates (Session.new world settings) plan rest)
    (matching : Matching settings.freshness dates alike)
    (same : ∀ b b', alike b b' → f b = f b') :
    Undisturbed key f (Session.new world settings) plan rest := by
  have steady := Steady.new world settings key
  have agree := h.agree matching steady steady ⟨none, .none, rfl⟩
  constructor
  · rw [← lane_timers_eq_nil, ← lane_timers_eq_nil]
    exact Iff.of_eq (congrArg (· = []) agree.lanes.timers.symm)
  · exact map_eq_of_forall₂ same agree.sights
  · exact map_eq_of_rel same agree.lanes.cached

/-- Bundles are alike that were measured at some times of day and differ in these only. If no bundle
expires, or none is ever fresh, they count as fresh at the same times. -/
theorem matching_undated (dates₁ dates₂ : List Instant) (settings : Settings)
    (h : settings.freshness = 0 ∨
      (∀ now ∈ dates₁, ∀ t ∈ dates₁, Instant.age now t < settings.freshness * 1000000) ∧
        ∀ now ∈ dates₂, ∀ t ∈ dates₂, Instant.age now t < settings.freshness * 1000000) :
    Matching settings.freshness (fun now now' => now ∈ dates₁ ∧ now' ∈ dates₂)
      fun b b' => b.undated = b'.undated ∧ b.timestamp ∈ dates₁ ∧ b'.timestamp ∈ dates₂ where
  measures := fun now now' together tree path => ⟨rfl, together⟩
  fresh := by
    rintro now now' ⟨there, there'⟩ b b' ⟨-, taken, taken'⟩
    rcases h with never | ⟨always, always'⟩
    · simp [never]
    · exact iff_of_true (always now there _ taken) (always' now' there' _ taken')

/-- A file is not disturbed by what is done to others. Without it, and with the same steps for the
file at the same times of day, the file sees the same. If the steps come at other times of day, then
still the same but for the timestamps, as long as bundles are never fresh or stay so. -/
theorem files_do_not_interfere (world : World) (settings : Settings) (key : Path)
    (plan : List (Instant × Step)) :
    let start := Session.new world settings
    Undisturbed key id start plan (start.only key plan) ∧
      ∀ rest, rest.map (·.2) = (start.only key plan).map (·.2) →
        settings.freshness = 0 ∨ (Unexpired settings plan ∧ Unexpired settings rest) →
          Undisturbed key Bundle.undated start plan rest := by
  intro start
  constructor
  · have matching : Matching settings.freshness Eq Eq :=
      ⟨by rintro now _ rfl tree path; rfl, by rintro now _ rfl b _ rfl; rfl⟩
    exact (matched_only key start plan).undisturbed matching fun b b' same => same
  · intro rest steps window
    have matching := matching_undated (plan.map (·.1)) (rest.map (·.1)) settings (by
      simpa [Unexpired] using window)
    have matched : Matched key _ start plan rest :=
      matched_of_steps (plan.map (·.1)) (rest.map (·.1)) (fun x hx => List.mem_map_of_mem hx)
        (fun x hx => List.mem_map_of_mem hx) steps
    exact matched.undisturbed matching fun b b' same => same.1

/-- Without the saves and measurements of another file a session waits for a shorter time, and here
its steps come an hour later; all the same the first save of the file is scheduled and the last one
finds it fresh. -/
theorem shorter_wait_goes_unnoticed :
    let a := Path.ofString "A.java"
    let b := Path.ofString "B.java"
    let settings : Settings := ⟨500, 7200000, "java".toList, []⟩
    let start := Session.new .bare settings
    let later : Instant := { Instant.epoch with hour := 1 }
    let plan : List (Instant × Step) := [(.epoch, .save a), (.epoch, .hold), (.epoch, .save b),
      (.epoch, .advance 300), (.epoch, .saves [b, a]), (later, .waitIdle), (later, .save a),
      (later, .force b 2), (later, .get b), (later, .get a)]
    let rest := (start.only (World.bare.key a) plan).map fun x => (later, x.2)
    Undisturbed (World.bare.key a) Bundle.undated start plan rest ∧
      (start.afterDated plan).coordinator.published.length = 4 ∧
      (start.afterDated rest).coordinator.published.length = 1 ∧
      (start.seen (World.bare.key a) rest).length = 5 := by
  intro a b settings start later plan rest
  have same : rest.map (·.2) = (start.only (World.bare.key a) plan).map (·.2) := by
    simp [rest]
  have window : Unexpired settings plan := by
    unfold Unexpired
    decide
  have window' : Unexpired settings rest := by
    intro x hx y hy
    obtain ⟨_, -, rfl⟩ := List.mem_map.1 hx
    obtain ⟨_, -, rfl⟩ := List.mem_map.1 hy
    show Instant.age later later < settings.freshness * 1000000
    decide
  have undisturbed := (files_do_not_interfere .bare settings (World.bare.key a) plan).2 rest same
    (.inr ⟨window, window'⟩)
  exact ⟨undisturbed, by decide, by decide, by decide⟩

end Session

end CodeGauge
