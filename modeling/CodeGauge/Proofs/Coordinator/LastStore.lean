import Mathlib.Data.List.Chain
import CodeGauge.Proofs.Coordinator.Log

/-!
# The last store wins

Computations of a file may overlap: one that read the files first may be the last to store its
bundle. A store replaces whatever is there, so the cache holds for every file the bundle that was
stored last (`Session.Run.lookup?_cache`). Whether that is the bundle that was read last depends on
the order of the stores alone:

* `staleFree_iff_inOrder`: no bundle replaces one that was read after it exactly if the bundles of
  the file are stored in the order in which they were read.
-/

namespace CodeGauge

/-! ## Reads and stores of a file -/

namespace Event

/-- The computation of the file that reads it in this event, with its bundle. -/
def readOf? (key : Path) : Event → Option (Nat × Bundle)
  | read number k bundle => if k.same key then some (number, bundle) else none
  | _ => none

/-- The computation of the file that stores its bundle in this event. -/
def storeOf? (key : Path) : Event → Option (Nat × Bundle)
  | finished number k bundle true => if k.same key then some (number, bundle) else none
  | _ => none

/-- Whether the computation with the given number reads in this event. -/
def isReadBy (number : Nat) : Event → Bool
  | read n _ _ => n = number
  | _ => false

/-- Whether a computation reads or finishes in this event. -/
def isWork : Event → Bool
  | read .. | finished .. => true
  | _ => false

theorem storeOf?_of_isOutside {e : Event} (h : e.isOutside = true) (key : Path) :
    e.storeOf? key = none := by
  cases e <;> simp_all [isOutside, storeOf?]

theorem isWork_of_isOutside {e : Event} (h : e.isOutside = true) : e.isWork = false := by
  cases e <;> simp_all [isOutside, isWork]

theorem readOf?_eq_some {e : Event} {key : Path} {number : Nat} {bundle : Bundle} :
    e.readOf? key = some (number, bundle) ↔ ∃ k, k.same key = true ∧ e = .read number k bundle := by
  constructor
  · intro h
    cases e <;> simp only [readOf?, reduceCtorEq] at h
    obtain ⟨same, rfl, rfl⟩ : _ ∧ _ ∧ _ := by simpa using h
    exact ⟨_, same, rfl⟩
  · rintro ⟨k, same, rfl⟩
    simp [readOf?, same]

theorem storeOf?_eq_some {e : Event} {key : Path} {number : Nat} {bundle : Bundle} :
    e.storeOf? key = some (number, bundle) ↔
      ∃ k, k.same key = true ∧ e = .finished number k bundle true := by
  constructor
  · intro h
    unfold storeOf? at h
    split at h
    next k _ =>
      obtain ⟨same, rfl, rfl⟩ : _ ∧ _ ∧ _ := by simpa using h
      exact ⟨k, same, rfl⟩
    next => simp at h
  · rintro ⟨k, same, rfl⟩
    simp [storeOf?, same]

end Event

namespace Session

/-- The computations of a file that have read it, in the order in which they did. -/
def reads (key : Path) (log : List Event) : List (Nat × Bundle) := log.filterMap (Event.readOf? key)

/-- The computations of a file that have stored their bundle, in the order in which they did. -/
def stores (key : Path) (log : List Event) : List (Nat × Bundle) :=
  log.filterMap (Event.storeOf? key)

theorem reads_append (key : Path) (log more : List Event) :
    reads key (log ++ more) = reads key log ++ reads key more := List.filterMap_append

theorem stores_append (key : Path) (log more : List Event) :
    stores key (log ++ more) = stores key log ++ stores key more := List.filterMap_append

/-- The place in the log at which a computation read the files. -/
def readTime (log : List Event) (number : Nat) : Nat := log.findIdx (Event.isReadBy number)

/-- The bundles of a file are stored in the order in which they were read. -/
def InOrder (key : Path) (log : List Event) : Prop :=
  (stores key log).Pairwise fun first later => readTime log first.1 < readTime log later.1

/-- No bundle of a file replaces one that was read after it. -/
def StaleFree (key : Path) (log : List Event) : Prop :=
  ∀ before number k bundle after, log = before ++ .finished number k bundle true :: after →
    k.same key = true →
      ∀ replaced ∈ (stores key before).getLast?, readTime log replaced.1 < readTime log number

end Session

/-! ## What the cache holds -/

namespace Coordinator

theorem Moves.lookup?_cache {w : World} {c c' : Coordinator} {e : Event} (h : Moves w c e c')
    (sound : c.Sound) (key : Path) :
    Snapshot.lookup? c'.cache key =
      ((e.storeOf? key).map (·.2)).or (Snapshot.lookup? c.cache key) := by
  cases h with
  | save path => simp [Event.storeOf?]
  | force | refuse | read | shutdown => rfl
  | fire t armed => rw [fire_of_mem armed]; rfl
  | finish j bundle started read =>
    rw [finish_of_mem sound started read]
    cases down : c.shutDown with
    | true =>
      rw [store_of_down (c := c.leave j.number) down]
      rfl
    | false =>
      rw [store_of_up (c := c.leave j.number) down]
      show Snapshot.lookup? (Snapshot.store c.cache j.key bundle) key = _
      by_cases same : j.key.same key = true
      · rw [Snapshot.lookup?_store_of_same (Path.same_symm same)]
        simp [Event.storeOf?, same]
      · have other : key.same j.key = false := by
          rw [Path.same_comm]
          simpa using same
        rw [Snapshot.lookup?_store_of_not_same other]
        simp [Event.storeOf?, same]

end Coordinator

namespace Session

variable {s t : Session} {log : List Event} {key : Path}

/-- The bundle of a file is the one that was stored last. -/
theorem Run.lookup?_cache (h : Run s log t) (sound : s.coordinator.Sound) (key : Path) :
    Snapshot.lookup? t.coordinator.cache key =
      ((stores key log).getLast?.map (·.2)).or (Snapshot.lookup? s.coordinator.cache key) := by
  induction h with
  | start => rfl
  | @move log t u e before last ih =>
    have step : Snapshot.lookup? u.coordinator.cache key =
        ((e.storeOf? key).map (·.2)).or (Snapshot.lookup? t.coordinator.cache key) := by
      obtain ⟨move, -⟩ | ⟨outside, same⟩ := last.cases
      · exact move.lookup?_cache (before.sound sound) key
      · rw [same, Event.storeOf?_of_isOutside outside]
        rfl
    rw [step, ih, stores_append, List.getLast?_append]
    unfold stores
    cases stored : e.storeOf? key <;> simp [stored]

/-! ## What the log tells about computations -/

/-- The log tells which computations have read: each of them once, and those that have not finished
are still there with their bundles. Those that have finished are gone. -/
structure Traced (log : List Event) (c : Coordinator) : Prop where
  once : log.Pairwise fun e f => ∀ number, e.isReadBy number = true → f.isReadBy number = false
  below : ∀ e ∈ log, ∀ number, e.isReadBy number = true → number < c.nextJob
  unread : ∀ j ∈ c.jobs, j.result = none → ∀ e ∈ log, e.isReadBy j.number = false
  read : ∀ j ∈ c.jobs, ∀ bundle, j.result = some bundle → .read j.number j.key bundle ∈ log
  finished : ∀ number k bundle kept, .finished number k bundle kept ∈ log →
    .read number k bundle ∈ log
  left : ∀ number k bundle, .read number k bundle ∈ log →
    (∃ kept, .finished number k bundle kept ∈ log) ∨
      ∃ j ∈ c.jobs, j.number = number ∧ j.key = k ∧ j.result = some bundle
  gone : ∀ number k bundle kept, .finished number k bundle kept ∈ log →
    ∀ j ∈ c.jobs, j.number ≠ number

variable {c c' : Coordinator} {w : World} {e : Event}

theorem Traced.new (settings : Settings) : Traced [] (Coordinator.new settings) :=
  ⟨.nil, by simp, by simp, by simp [Coordinator.new], by simp, by simp, by simp⟩

/-- Events in which no computation reads or finishes tell nothing. -/
theorem Traced.append (h : Traced log c) (quiet : e.isWork = false) : Traced (log ++ [e]) c := by
  have notRead : ∀ number, e.isReadBy number = false := by
    cases e <;> simp_all [Event.isWork, Event.isReadBy]
  constructor
  · rw [List.pairwise_append]
    refine ⟨h.once, List.pairwise_singleton _ _, ?_⟩
    intro _ _ f hf number _
    rw [List.mem_singleton.1 hf]
    exact notRead number
  · intro f hf number reads
    rcases List.mem_append.1 hf with old | new
    · exact h.below f old number reads
    · rw [List.mem_singleton.1 new, notRead] at reads
      simp at reads
  · intro j hj unread f hf
    rcases List.mem_append.1 hf with old | new
    · exact h.unread j hj unread f old
    · rw [List.mem_singleton.1 new]
      exact notRead j.number
  · intro j hj bundle read
    exact List.mem_append_left _ (h.read j hj bundle read)
  · intro number k bundle kept there
    rcases List.mem_append.1 there with old | new
    · exact List.mem_append_left _ (h.finished _ _ _ _ old)
    · rw [← List.mem_singleton.1 new] at quiet
      simp [Event.isWork] at quiet
  · intro number k bundle there
    rcases List.mem_append.1 there with old | new
    · rcases h.left _ _ _ old with ⟨kept, done⟩ | waits
      · exact .inl ⟨kept, List.mem_append_left _ done⟩
      · exact .inr waits
    · rw [← List.mem_singleton.1 new] at quiet
      simp [Event.isWork] at quiet
  · intro number k bundle kept there
    rcases List.mem_append.1 there with old | new
    · exact h.gone _ _ _ _ old
    · rw [← List.mem_singleton.1 new] at quiet
      simp [Event.isWork] at quiet

theorem Traced.congr (h : Traced log c) (jobs : c'.jobs = c.jobs) (next : c'.nextJob = c.nextJob) :
    Traced log c' where
  once := h.once
  below := next ▸ h.below
  unread := jobs ▸ h.unread
  read := jobs ▸ h.read
  finished := h.finished
  left := jobs ▸ h.left
  gone := jobs ▸ h.gone

theorem Traced.cancel (h : Traced log c) (key : Path) : Traced log (c.cancel key) := h.congr rfl rfl

theorem Traced.start (h : Traced log c) (key : Path) (origin : JobOrigin) :
    Traced log (c.start key origin) where
  once := h.once
  below e he number reads := Nat.lt_succ_of_lt (h.below e he number reads)
  unread := by
    intro j hj unread e he
    rcases Coordinator.mem_start_jobs.1 hj with old | rfl
    · exact h.unread j old unread e he
    · -- The number of the new computation has not been given out before.
      by_contra reads
      exact Nat.lt_irrefl _ (h.below e he c.nextJob (by simpa using reads))
  read := by
    intro j hj bundle read
    rcases Coordinator.mem_start_jobs.1 hj with old | rfl
    · exact h.read j old bundle read
    · simp at read
  finished := h.finished
  left := by
    intro number k bundle there
    rcases h.left number k bundle there with done | ⟨j, hj, facts⟩
    · exact .inl done
    · exact .inr ⟨j, Coordinator.mem_start_jobs.2 (.inl hj), facts⟩
  gone := by
    intro number k bundle kept there j hj
    rcases Coordinator.mem_start_jobs.1 hj with old | rfl
    · exact h.gone _ _ _ _ there j old
    · have given := h.below _ (h.finished _ _ _ _ there) number (by simp [Event.isReadBy])
      exact Nat.ne_of_gt given

theorem Traced.readFiles (h : Traced log c) (sound : c.Sound) {j : Job} (started : j ∈ c.jobs)
    (unread : j.result = none) :
    Traced (log ++ [.read j.number j.key (w.measure j.key)]) (c.readFiles w j.number) := by
  have jobs {x : Job} := Coordinator.mem_readFiles_jobs sound started unread (w := w) (x := x)
  constructor
  · rw [List.pairwise_append]
    refine ⟨h.once, List.pairwise_singleton _ _, ?_⟩
    intro f hf e he number reads
    rw [List.mem_singleton.1 he]
    by_contra this
    have number_eq : j.number = number := by simpa [Event.isReadBy] using this
    rw [← number_eq, h.unread j started unread f hf] at reads
    simp at reads
  · intro e he number reads
    rcases List.mem_append.1 he with old | new
    · exact h.below e old number reads
    · rw [List.mem_singleton.1 new] at reads
      have number_eq : j.number = number := by simpa [Event.isReadBy] using reads
      rw [← number_eq]
      exact sound.numbered j started
  · intro x hx none_yet e he
    rcases jobs.1 hx with rfl | ⟨old, other⟩
    · simp at none_yet
    · rcases List.mem_append.1 he with before | new
      · exact h.unread x old none_yet e before
      · rw [List.mem_singleton.1 new]
        simpa [Event.isReadBy] using Ne.symm other
  · intro x hx bundle read
    rcases jobs.1 hx with rfl | ⟨old, other⟩
    · obtain rfl : w.measure j.key = bundle := by simpa using read
      simp
    · exact List.mem_append_left _ (h.read x old bundle read)
  · intro number k bundle kept there
    rcases List.mem_append.1 there with old | new
    · exact List.mem_append_left _ (h.finished _ _ _ _ old)
    · simp at new
  · intro number k bundle there
    rcases List.mem_append.1 there with old | new
    · rcases h.left _ _ _ old with ⟨kept, done⟩ | ⟨i, hi, rfl, rfl, result⟩
      · exact .inl ⟨kept, List.mem_append_left _ done⟩
      · refine .inr ⟨i, jobs.2 (.inr ⟨hi, ?_⟩), rfl, rfl, result⟩
        intro same
        rw [sound.eq_of_number hi started same, unread] at result
        simp at result
    · obtain ⟨rfl, rfl, rfl⟩ : number = j.number ∧ k = j.key ∧ bundle = w.measure j.key := by
        simpa using new
      exact .inr ⟨_, jobs.2 (.inl rfl), rfl, rfl, rfl⟩
  · intro number k bundle kept there x hx
    have old : .finished number k bundle kept ∈ log := by simpa using there
    rcases jobs.1 hx with rfl | ⟨before, -⟩
    · exact h.gone _ _ _ _ old j started
    · exact h.gone _ _ _ _ old x before

theorem Traced.finish (h : Traced log c) (sound : c.Sound) {j : Job} (started : j ∈ c.jobs)
    {bundle : Bundle} (result : j.result = some bundle) (kept : Bool) :
    Traced (log ++ [.finished j.number j.key bundle kept]) (c.finish j.number) := by
  have jobs {x : Job} : x ∈ (c.finish j.number).jobs ↔ x ∈ c.jobs ∧ x.number ≠ j.number := by
    rw [Coordinator.finish_of_mem sound started result, Coordinator.store_jobs]
    exact Coordinator.mem_leave_jobs
  have next : (c.finish j.number).nextJob = c.nextJob := by
    rw [Coordinator.finish_of_mem sound started result, Coordinator.store_nextJob]
    rfl
  constructor
  · rw [List.pairwise_append]
    refine ⟨h.once, List.pairwise_singleton _ _, ?_⟩
    intro f _ e he number _
    rw [List.mem_singleton.1 he]
    rfl
  · intro e he number reads
    rw [next]
    rcases List.mem_append.1 he with old | new
    · exact h.below e old number reads
    · rw [List.mem_singleton.1 new] at reads
      simp [Event.isReadBy] at reads
  · intro x hx none_yet e he
    rcases List.mem_append.1 he with before | new
    · exact h.unread x (jobs.1 hx).1 none_yet e before
    · rw [List.mem_singleton.1 new]
      rfl
  · intro x hx b read
    exact List.mem_append_left _ (h.read x (jobs.1 hx).1 b read)
  · intro number k b kept' there
    apply List.mem_append_left
    rcases List.mem_append.1 there with old | new
    · exact h.finished _ _ _ _ old
    · obtain ⟨rfl, rfl, rfl, -⟩ : number = j.number ∧ k = j.key ∧ b = bundle ∧ kept' = kept := by
        simpa using new
      exact h.read j started _ result
  · intro number k b there
    have old : .read number k b ∈ log := by simpa using there
    rcases h.left _ _ _ old with ⟨kept', done⟩ | ⟨i, hi, rfl, rfl, read⟩
    · exact .inl ⟨kept', List.mem_append_left _ done⟩
    · by_cases this : i.number = j.number
      · obtain rfl := sound.eq_of_number hi started this
        obtain rfl : bundle = b := by simpa [result] using read
        exact .inl ⟨kept, by simp⟩
      · exact .inr ⟨i, jobs.2 ⟨hi, this⟩, rfl, rfl, read⟩
  · intro number k b kept' there x hx
    rcases List.mem_append.1 there with old | new
    · exact h.gone _ _ _ _ old x (jobs.1 hx).1
    · obtain ⟨rfl, -⟩ : number = j.number ∧ _ := by simpa using new
      exact (jobs.1 hx).2

theorem Traced.moves (h : Traced log c) (sound : c.Sound) (move : Coordinator.Moves w c e c') :
    Traced (log ++ [e]) c' := by
  cases move with
  | save path =>
    exact (h.append rfl).congr (Coordinator.save_jobs c w path) (Coordinator.save_nextJob c w path)
  | force path =>
    have noted : Traced (log ++ [.forced path (w.key path)]) c := h.append rfl
    exact (noted.cancel _).start _ _
  | refuse => exact h.append rfl
  | fire t armed =>
    rw [Coordinator.fire_of_mem armed]
    have noted : Traced (log ++ [.fired t w.clock]) c := h.append rfl
    exact (noted.cancel _).start _ _
  | read j started unread => exact h.readFiles sound started unread
  | finish j bundle started result => exact h.finish sound started result _
  | shutdown => exact (h.append rfl).congr rfl rfl

theorem Run.traced {world : World} {settings : Settings}
    (h : Run (Session.new world settings) log t) : Traced log t.coordinator := by
  induction h with
  | start => exact .new settings
  | move before last ih =>
    obtain ⟨move, -⟩ | ⟨outside, same⟩ := last.cases
    · exact ih.moves (before.sound (sound_new world settings)) move
    · rw [same]
      exact ih.append (Event.isWork_of_isOutside outside)

/-! ## The order of reads and stores -/

theorem mem_reads {number : Nat} {bundle : Bundle} :
    (number, bundle) ∈ reads key log ↔ ∃ k, k.same key = true ∧ .read number k bundle ∈ log := by
  unfold reads
  rw [List.mem_filterMap]
  constructor
  · rintro ⟨e, he, found⟩
    obtain ⟨k, same, rfl⟩ := Event.readOf?_eq_some.1 found
    exact ⟨k, same, he⟩
  · rintro ⟨k, same, there⟩
    exact ⟨_, there, Event.readOf?_eq_some.2 ⟨k, same, rfl⟩⟩

theorem mem_stores {number : Nat} {bundle : Bundle} :
    (number, bundle) ∈ stores key log ↔
      ∃ k, k.same key = true ∧ .finished number k bundle true ∈ log := by
  unfold stores
  rw [List.mem_filterMap]
  constructor
  · rintro ⟨e, he, found⟩
    obtain ⟨k, same, rfl⟩ := Event.storeOf?_eq_some.1 found
    exact ⟨k, same, he⟩
  · rintro ⟨k, same, there⟩
    exact ⟨_, there, Event.storeOf?_eq_some.2 ⟨k, same, rfl⟩⟩

/-- What was stored had been read. -/
theorem Traced.mem_reads_of_mem_stores (h : Traced log c) {x : Nat × Bundle}
    (stored : x ∈ stores key log) : x ∈ reads key log := by
  obtain ⟨k, same, there⟩ := mem_stores.1 stored
  exact mem_reads.2 ⟨k, same, h.finished _ _ _ _ there⟩

theorem readTime_lt_length {e : Event} {number : Nat} (he : e ∈ log)
    (reads : e.isReadBy number = true) (more : List Event) :
    readTime (log ++ more) number < log.length := by
  unfold readTime
  rw [List.findIdx_append]
  have there : log.findIdx (Event.isReadBy number) < log.length :=
    List.findIdx_lt_length_of_exists ⟨e, he, reads⟩
  rwa [if_pos there]

theorem Traced.readTime_eq {before after : List Event} {e : Event} {number : Nat}
    (h : Traced (before ++ e :: after) c) (reads : e.isReadBy number = true) :
    readTime (before ++ e :: after) number = before.length := by
  have first : ∀ f ∈ before, f.isReadBy number = false := by
    intro f hf
    have apart := (List.pairwise_append.1 h.once).2.2 f hf e List.mem_cons_self number
    by_contra too
    rw [apart (by simpa using too)] at reads
    simp at reads
  unfold readTime
  rw [List.findIdx_append, List.findIdx_eq_length_of_false first, List.findIdx_cons, reads]
  simp

theorem isChain_filterMap_iff {α β : Type} {f : α → Option β} {R : β → β → Prop} {l : List α} :
    (l.filterMap f).IsChain R ↔ ∀ before a after b, l = before ++ a :: after → f a = some b →
      ∀ c ∈ (before.filterMap f).getLast?, R c b := by
  induction l using List.reverseRecOn with
  | nil => simp
  | append_singleton l x ih =>
    rw [List.filterMap_append, List.isChain_append, ih]
    constructor
    · rintro ⟨earlier, -, joint⟩ before a after b split found c hc
      rcases List.eq_nil_or_concat after with rfl | ⟨after, y, rfl⟩
      · obtain ⟨rfl, rfl⟩ := List.append_inj' split rfl |>.imp_right List.singleton_inj.1
        exact joint c hc b (by simp [found])
      · rw [List.concat_eq_append, ← List.cons_append, ← List.append_assoc] at split
        exact earlier before a after b (List.append_inj_left' split rfl) found c hc
    · intro all
      refine ⟨?_, ?_, ?_⟩
      · intro before a after b split found
        exact all before a (after ++ [x]) b (by simp [split]) found
      · cases found : f x <;> simp [found]
      · intro c hc b hb
        refine all l x [] b rfl ?_ c hc
        cases found : f x <;> simp_all

theorem pairwise_readTime_iff {l : List (Nat × Bundle)} :
    (l.Pairwise fun first later => readTime log first.1 < readTime log later.1) ↔
      l.IsChain fun first later => readTime log first.1 < readTime log later.1 := by
  have later : Trans (fun x y : Nat × Bundle => readTime log x.1 < readTime log y.1)
      (fun x y : Nat × Bundle => readTime log x.1 < readTime log y.1)
      (fun x y : Nat × Bundle => readTime log x.1 < readTime log y.1) := ⟨Nat.lt_trans⟩
  exact List.isChain_iff_pairwise.symm

/-- No bundle of a file replaces one that was read after it exactly if its bundles are stored in the
order in which they were read. -/
theorem staleFree_iff_inOrder : StaleFree key log ↔ InOrder key log := by
  unfold InOrder stores
  -- Only the bundle right before is replaced, so the order is first brought down to neighbours.
  rw [pairwise_readTime_iff, isChain_filterMap_iff]
  constructor
  · rintro free before e after ⟨number, bundle⟩ split found replaced last
    obtain ⟨k, same, rfl⟩ := Event.storeOf?_eq_some.1 found
    exact free before number k bundle after split same replaced last
  · intro chain before number k bundle after split same replaced last
    exact chain before _ after (number, bundle) split (Event.storeOf?_eq_some.2 ⟨k, same, rfl⟩)
      replaced last

theorem Traced.reads_ordered (h : Traced log c) (key : Path) :
    (reads key log).Pairwise fun first later => readTime log first.1 < readTime log later.1 := by
  unfold reads
  rw [pairwise_readTime_iff, isChain_filterMap_iff]
  rintro before e after ⟨number, bundle⟩ rfl found ⟨number', bundle'⟩ last
  obtain ⟨k, -, rfl⟩ := Event.readOf?_eq_some.1 found
  obtain ⟨k', -, there⟩ := mem_reads.1 (List.mem_of_getLast? last)
  have reading : (Event.read number k bundle).isReadBy number = true := by simp [Event.isReadBy]
  rw [h.readTime_eq reading]
  exact readTime_lt_length there (by simp [Event.isReadBy]) _

end Session

end CodeGauge
