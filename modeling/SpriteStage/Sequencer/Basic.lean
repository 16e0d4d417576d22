import SpriteStage.Pointer
import SpriteStage.Sequencer.Journal
import SpriteStage.Sequencer.Task

/-!
# The sequencer

The state of a program that runs: the sprite's store, what actions look at, the run that goes on,
and the tasks of this and earlier runs. The walkers of runs that were cancelled end on their next
turn. Clears go on until a reset.
-/

namespace SpriteStage

structure Sequencer where
  store : Store := {}
  pointer : ThrottledPointer
  bounds : Bounds
  generator : Generator
  timing : Timing
  stage : StageSettings
  /-- The program that the next trigger starts. -/
  program : Program := Program.empty
  /-- The time in milliseconds. -/
  now : Nat := 0
  runs : Runs := {}
  /-- The walkers of this epoch that have not ended. -/
  inFlight : Nat := 0
  /-- The tasks that wait for a turn, the next one first. -/
  ready : List Ready := []
  /-- The tasks that gave up their turn without falling asleep, the last one first. -/
  yielded : List Ready := []
  /-- The tasks that sleep, in the order in which they fell asleep. -/
  asleep : List Sleeper := []
  /-- The milliseconds that every sleep takes on top: none on an exact clock, and one on a clock that
  goes on between the instants it counts. -/
  lag : Nat := 0
  /-- What was done so far, the last first. -/
  journal : List Note := []

namespace Sequencer

/-- A sequencer with nothing going on. Settings that name no seed leave it to `seed`. -/
def ofSettings (settings : Settings) (bounds : Bounds) (seed : Nat) : Sequencer :=
  { pointer := ThrottledPointer.ofMillis settings.timing.pointerThrottleMs
    bounds
    generator := Generator.ofSeed (settings.seed.getD seed)
    timing := settings.timing
    stage := settings.stage }

def current (s : Sequencer) : Option Stamp := s.runs.current

def instant (s : Sequencer) : Int := s.now * 1000

/-- Whether something of the current run is going on. Walkers of earlier runs that had no turn since
count too. -/
def isPlaying (s : Sequencer) : Bool := s.current.isSome && 0 < s.inFlight

/-- Whether a task was cancelled: it only waits to end. -/
def isCancelled (s : Sequencer) (work : Work) : Bool := s.runs.scopes.isCancelled work.scope

def note (s : Sequencer) (n : Note) : Sequencer := { s with journal := n :: s.journal }

def steps (s : Sequencer) : List Step := s.journal.reverse.filterMap Note.step?

def spawn (s : Sequencer) (work : Work) : Sequencer :=
  { s with ready := s.ready ++ [⟨work, none⟩] }

def sleep (s : Sequencer) (work : Work) (due : Nat) : Sequencer :=
  { s with asleep := s.asleep ++ [⟨work, due⟩] }

def yield (s : Sequencer) (work : Work) : Sequencer :=
  { s with yielded := ⟨work, none⟩ :: s.yielded }

def sleepTime (s : Sequencer) (d : Duration) : Nat := d.timerMillis + s.lag

def stepTime (s : Sequencer) : Nat := s.sleepTime (Duration.ofMillis s.timing.stepDelayMs)

def scene (s : Sequencer) : Scene :=
  { pointer := (s.pointer.read s.instant).1
    bounds := s.bounds
    stage := s.stage
    sayDuration := Duration.ofMillis s.timing.sayDurationMs
    generator := s.generator }

def outcome (s : Sequencer) (a : Action) : Outcome := a.apply s.store.motion s.scene

/-- Executes an action for a script of a run, and queues the clears that it asks for. -/
def dispatch (s : Sequencer) (run : Stamp) (script : Nat) (a : Action) : Sequencer :=
  let outcome := s.outcome a
  { s with
    store := s.store.applyStep run outcome.motion outcome.effect
    pointer := (s.pointer.read s.instant).2
    generator := outcome.generator
    ready := s.ready ++ (outcome.effect.clears run s.runs.session).map fun c => ⟨.clear c, none⟩
    journal := .executed ⟨s.now, run, script, a, s.scene, outcome.effect⟩ :: s.journal }

/-- Counts a walker as begun, unless there was a reset since. -/
def enter (s : Sequencer) (epoch : Nat) : Sequencer :=
  if epoch = s.runs.epoch then { s with inFlight := s.inFlight + 1 } else s

/-- Counts a walker as ended. Walkers from before a reset are not counted any more. -/
def leave (s : Sequencer) (epoch : Nat) : Sequencer :=
  if epoch = s.runs.epoch then { s with inFlight := s.inFlight - 1 } else s

def fire (s : Sequencer) (c : Clear) : Sequencer :=
  { s with
    store := s.store.clear c.slot c.run
    journal := .cleared s.now c.slot c.run (s.store.owns c.slot c.run) :: s.journal }

end Sequencer

end SpriteStage
