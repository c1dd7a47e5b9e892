import CodeGauge.Bundle.Report
import CodeGauge.Workspace.Measure
import CodeGauge.Workspace.Settings

/-!
# The coordinator

A coordinator keeps the bundles of a workspace up to date. A save arms a timer for its file, in
place of the timer that was there; a timer that fires starts a computation, which first reads the
files and later stores its bundle. A forced computation does the same at once. After the shutdown
there are no timers, and computations that are still under way are discarded when they finish.

Each of these is a step of its own here, so that steps of different files, and reading and storing
of one file, may come in any order.
-/

namespace CodeGauge

/-- What surrounds a coordinator: the files, a clock in milliseconds, and the time of day. -/
structure World where
  tree : FileTree
  clock : Nat
  wall : Instant

namespace World

/-- The name of a file in the cache, whatever way its path is spelled. -/
def key (w : World) (path : Path) : Path := Path.absolute w.tree.cwdPath path

/-- The bundle of a file as it is now. -/
def measure (w : World) (key : Path) : Bundle := Workspace.bundle w.tree w.wall key

end World

/-- What a save led to. -/
inductive SaveOutcome where
  | notSource
  | fresh
  | scheduled
  | shutDown
deriving DecidableEq

/-- What a coordinator has done so far. -/
structure Stats where
  /-- Saves that armed a timer. -/
  scheduled : Nat
  /-- Saves of files with a fresh bundle. -/
  ignoredFresh : Nat
  /-- Computations that finished. -/
  computations : Nat
  /-- Computations whose bundle was not stored. -/
  discarded : Nat
deriving DecidableEq

/-- A timer that has not fired yet. Its generation tells it from all other timers. -/
structure Timer where
  key : Path
  generation : Nat
  due : Nat
deriving DecidableEq

/-- Why a computation was started. -/
inductive JobOrigin where
  | timer (generation : Nat)
  | forced
deriving DecidableEq

/-- A computation that has started and not finished, with its bundle once the files have been
read. -/
structure Job where
  number : Nat
  key : Path
  origin : JobOrigin
  result : Option Bundle

/-- The state of a coordinator. Timers are in the order in which they were armed, computations in
the order in which they were started, and published keys in the order in which they were stored. -/
structure Coordinator where
  settings : Settings
  timers : List Timer
  nextGeneration : Nat
  jobs : List Job
  nextJob : Nat
  cache : Snapshot
  published : List Path
  stats : Stats
  shutDown : Bool

namespace Coordinator

/-- A coordinator that has done nothing yet. -/
def new (settings : Settings) : Coordinator :=
  { settings, timers := [], nextGeneration := 0, jobs := [], nextJob := 0, cache := [],
    published := [], stats := ⟨0, 0, 0, 0⟩, shutDown := false }

/-- Whether nothing is left to be done. -/
def isIdle (c : Coordinator) : Bool := c.timers.isEmpty && c.jobs.isEmpty

/-! ## Timers -/

/-- Takes away the timer of a file. -/
def cancel (c : Coordinator) (key : Path) : Coordinator :=
  { c with timers := c.timers.filter (!·.key.same key) }

/-- Arms a timer for a file, in place of the one that is there. -/
def arm (c : Coordinator) (key : Path) (clock : Nat) : Coordinator :=
  let timer : Timer := ⟨key, c.nextGeneration, clock + c.settings.debounce⟩
  { c.cancel key with
    timers := (c.cancel key).timers ++ [timer]
    nextGeneration := c.nextGeneration + 1
    stats := { c.stats with scheduled := c.stats.scheduled + 1 } }

/-- Whether the bundle of a file is younger than the freshness window. -/
def isFresh (c : Coordinator) (key : Path) (wall : Instant) : Bool :=
  match Snapshot.lookup? c.cache key with
  | some bundle => Instant.age wall bundle.timestamp < c.settings.freshness * 1000000
  | none => false

/-- Takes notice of a save. -/
def save (c : Coordinator) (w : World) (path : Path) : SaveOutcome × Coordinator :=
  if c.shutDown then (.shutDown, c)
  else if !path.hasExtension c.settings.extension then (.notSource, c)
  else if c.isFresh (w.key path) w.wall then
    (.fresh, { c with stats := { c.stats with ignoredFresh := c.stats.ignoredFresh + 1 } })
  else (.scheduled, c.arm (w.key path) w.clock)

/-! ## Computations -/

/-- Starts a computation. -/
def start (c : Coordinator) (key : Path) (origin : JobOrigin) : Coordinator :=
  { c with jobs := c.jobs ++ [⟨c.nextJob, key, origin, none⟩], nextJob := c.nextJob + 1 }

/-- A timer goes off: if it is still the timer of its file, it leaves and its computation starts. A
timer that was replaced or cancelled does nothing. -/
def fire (c : Coordinator) (key : Path) (generation : Nat) : Coordinator :=
  if c.timers.any fun t => t.key.same key && t.generation == generation then
    (c.cancel key).start key (.timer generation)
  else c

/-- A computation reads the files. -/
def readFiles (c : Coordinator) (w : World) (number : Nat) : Coordinator :=
  { c with jobs := c.jobs.map fun job =>
      if job.number = number ∧ job.result.isNone then
        { job with result := some (w.measure job.key) }
      else job }

/-- Stores a bundle and publishes its key; after the shutdown the bundle is discarded. -/
def store (c : Coordinator) (key : Path) (bundle : Bundle) : Coordinator :=
  if c.shutDown then { c with stats := { c.stats with discarded := c.stats.discarded + 1 } }
  else { c with cache := Snapshot.store c.cache key bundle, published := c.published ++ [key] }

/-- A computation that has read the files finishes. -/
def finish (c : Coordinator) (number : Nat) : Coordinator :=
  match c.jobs.find? (·.number = number) with
  | some ⟨_, key, _, some bundle⟩ =>
    { c with
      jobs := c.jobs.filter (·.number ≠ number)
      stats := { c.stats with computations := c.stats.computations + 1 } }.store key bundle
  | _ => c

/-- A computation reads the files and finishes. -/
def complete (c : Coordinator) (w : World) (number : Nat) : Coordinator :=
  (c.readFiles w number).finish number

/-- Measures a file at once, whatever its timer and its freshness. -/
def force (c : Coordinator) (w : World) (path : Path) : Option Bundle × Coordinator :=
  if c.shutDown then (none, c)
  else
    let key := w.key path
    (some (w.measure key), ((c.cancel key).start key .forced).complete w c.nextJob)

/-! ## The whole workspace -/

/-- The bundle of a file, if there is one; nothing is computed. -/
def get? (c : Coordinator) (w : World) (path : Path) : Option Bundle :=
  Snapshot.lookup? c.cache (w.key path)

/-- Takes notice of several saves, one after the other. -/
def saveAll (c : Coordinator) (w : World) : List Path → List SaveOutcome × Coordinator
  | [] => ([], c)
  | path :: rest =>
    let (outcome, c) := c.save w path
    let (outcomes, c) := c.saveAll w rest
    (outcome :: outcomes, c)

/-- Treats every source below a root as saved. Gives the number of those that were scheduled. -/
def warmUp (c : Coordinator) (w : World) (root : Path) : Nat × Coordinator :=
  let files := Workspace.gather w.tree root c.settings.extension c.settings.excluded
  let (outcomes, c) := c.saveAll w files
  (outcomes.count .scheduled, c)

/-- Ends the work: all timers are dropped, and nothing will be stored any more. -/
def shutdown (c : Coordinator) : Coordinator := { c with timers := [], shutDown := true }

end Coordinator

end CodeGauge
