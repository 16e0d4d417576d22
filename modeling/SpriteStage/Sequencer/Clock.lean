import SpriteStage.Sequencer.Turn

/-!
# The clock

Time goes from one instant at which a sleeper is due to the next. At each of them the sleepers that
are due get ready in the order of their instants, and of one instant in the order in which they fell
asleep; then all tasks have their turns.
-/

namespace SpriteStage.Sequencer

def nextDue? (s : Sequencer) : Option Nat := (s.asleep.map Sleeper.due).min?

def wakeAt (s : Sequencer) (time : Nat) : Sequencer :=
  let (due, others) := s.asleep.partition fun t => t.due ≤ time
  let inOrder := due.mergeSort fun a b => a.due ≤ b.due
  { s with
    now := time
    ready := s.ready ++ inOrder.map Sleeper.woken
    asleep := others }

@[simp] theorem wakeAt_now (s : Sequencer) (time : Nat) : (s.wakeAt time).now = time := rfl

/-- Lets time pass up to an instant as long as `goOn` says so, and stops at an instant at which
tasks had their turns. -/
def runUntil (goOn : Sequencer → Bool) (last : Nat) (s : Sequencer) : Sequencer :=
  if !goOn s then s
  else
    match s.nextDue? with
    | none => s
    | some due =>
      if s.now < due ∧ due ≤ last then runUntil goOn last (s.wakeAt due).settle else s
termination_by last - s.now
decreasing_by
  simp only [settle_now, wakeAt_now]
  omega

/-- Lets as many milliseconds pass as a timer for them runs, the last one included. -/
def wait (s : Sequencer) (ms : Nat) : Sequencer :=
  let last := s.now + (Duration.ofMillis ms).timerMillis
  (runUntil (fun _ => true) last s).wakeAt last

/-- An instant by which every walker has ended if nothing is started: a step delay for each action
that is left. -/
def idleBy (s : Sequencer) : Nat :=
  let longest := s.asleep.foldl (fun n t =>
    match t.work with
    | .walk w => max n w.rest.length
    | .clear _ => n) 0
  s.now + s.stepTime * longest

def waitIdle (s : Sequencer) : Sequencer :=
  runUntil (fun s => 0 < s.inFlight) s.idleBy s

end SpriteStage.Sequencer
