import CodeGauge.Coordinator.Basic
import CodeGauge.FileTree.Edit

/-!
# Sessions

A session runs a coordinator in a world whose clock moves only when told. After every step the
timers that are due fire in turn and their computations are completed, unless they are held back:
then they wait, and read the files only when they are released.
-/

namespace CodeGauge

/-- The keys that a subscriber received since it last asked, and the number of those it missed. -/
structure Updates where
  paths : List Path
  count : Nat
  lagged : Nat
deriving DecidableEq

/-- A coordinator in its world. A subscription is the number of published keys that were seen. -/
structure Session where
  world : World
  coordinator : Coordinator
  held : Bool
  subscription : Option Nat

namespace Session

/-- A new session. -/
def new (world : World) (settings : Settings) : Session :=
  { world, coordinator := .new settings, held := false, subscription := none }

/-! ## Settling -/

/-- Fires every timer that is due, in the order of their deadlines. -/
def fireDue (s : Session) : Session :=
  let due := s.coordinator.timers.filter (·.due ≤ s.world.clock)
  { s with coordinator := due.foldl (fun c t => c.fire t.key t.generation) s.coordinator }

/-- Completes every computation that was started, in order. -/
def completeAll (s : Session) : Session :=
  { s with coordinator :=
      s.coordinator.jobs.foldl (fun c job => c.complete s.world job.number) s.coordinator }

/-- Lets everything happen that is due. -/
def settle (s : Session) : Session :=
  let s := s.fireDue
  if s.held then s else s.completeAll

/-- Moves the clock to the last deadline. -/
def skipToLast (s : Session) : Session :=
  let last := s.coordinator.timers.foldl (fun clock t => max clock t.due) s.world.clock
  { s with world := { s.world with clock := last } }

/-- Releases what is held and moves the clock until nothing is left to be done. -/
def waitIdle (s : Session) : Session := { s with held := false }.settle.skipToLast.settle

/-! ## Steps -/

/-- The number of updates that are kept for a subscriber. -/
def channelCapacity : Nat := 256

/-- Keys without those that name the same file as an earlier one. -/
def distinct (paths : List Path) : List Path :=
  paths.foldl (fun seen p => if seen.any (·.same p) then seen else seen ++ [p]) []

/-- What a subscriber gets who has seen the given number of published keys. -/
def updatesSince (s : Session) (seen : Nat) : Updates :=
  let news := s.coordinator.published.drop seen
  let count := min news.length channelCapacity
  let lagged := news.length - count
  { paths := (distinct (news.drop lagged)).mergeSort Path.le, count, lagged }

/-- What can be asked of a session. -/
inductive Step where
  | save (path : Path)
  | saves (paths : List Path)
  | get (path : Path)
  | all
  | force (path : Path) (times : Nat)
  | warmUp (root : Path)
  | advance (millis : Nat)
  | waitIdle
  | hold
  | release
  | shutdown
  | subscribe
  | updates
  | edit (path : Path) (change : Edit)

/-- What a step answers. -/
inductive Answer where
  | done
  | outcome (o : SaveOutcome)
  | outcomes (os : List SaveOutcome)
  | bundle (b : Option Bundle)
  | snapshot (s : Snapshot)
  | scheduled (n : Nat)
  | updates (u : Option Updates)

/-- Forces a measurement so many times and gives the last bundle. -/
def forceTimes (s : Session) (path : Path) : Nat → Option Bundle × Session
  | 0 => (none, s)
  | 1 =>
    let (bundle, c) := s.coordinator.force s.world path
    (bundle, { s with coordinator := c })
  | n + 2 =>
    let c := (s.coordinator.force s.world path).2
    { s with coordinator := c }.forceTimes path (n + 1)

/-- Does a step, before anything settles. -/
def act (s : Session) : Step → Answer × Session
  | .save path =>
    let (outcome, c) := s.coordinator.save s.world path
    (.outcome outcome, { s with coordinator := c })
  | .saves paths =>
    let (outcomes, c) := s.coordinator.saveAll s.world paths
    (.outcomes outcomes, { s with coordinator := c })
  | .get path => (.bundle (s.coordinator.get? s.world path), s)
  | .all => (.snapshot (Snapshot.sorted s.coordinator.cache), s)
  | .force path times =>
    let (bundle, s) := s.forceTimes path times
    (.bundle bundle, s)
  | .warmUp root =>
    let (n, c) := s.coordinator.warmUp s.world root
    (.scheduled n, { s with coordinator := c })
  | .advance millis =>
    (.done, { s with world := { s.world with clock := s.world.clock + millis } })
  | .waitIdle => (.done, s.waitIdle)
  | .hold => (.done, { s with held := true })
  | .release => (.done, { s with held := false })
  | .shutdown => (.done, { s with coordinator := s.coordinator.shutdown })
  | .subscribe => (.done, { s with subscription := some s.coordinator.published.length })
  | .updates =>
    (.updates (s.subscription.map s.updatesSince),
      { s with subscription := s.subscription.map fun _ => s.coordinator.published.length })
  | .edit path change =>
    (.done, { s with world := { s.world with tree := s.world.tree.edit path change } })

/-- Does a step and lets the session settle. -/
def step (s : Session) (next : Step) : Answer × Session :=
  let (answer, s) := s.act next
  (answer, s.settle)

/-- Does steps one after the other and collects the answers, each with the session after it. -/
def run (s : Session) : List Step → List (Answer × Session)
  | [] => []
  | next :: rest =>
    let (answer, s) := s.step next
    (answer, s) :: s.run rest

end Session

end CodeGauge
