import SpriteStage.Sequencer.Basic

/-!
# Triggers

What a user can do to a sequencer: start the scripts of an event, run the program, undo, reset, put
another program in. None of it takes time, and none of it gives a task a turn.
-/

namespace SpriteStage.Sequencer

/-- Wakes the sleepers that were cancelled, so that they end on their next turn. -/
def wakeCancelled (s : Sequencer) : Sequencer :=
  let (cancelled, others) := s.asleep.partition fun t => s.isCancelled t.work
  { s with
    ready := s.ready ++ cancelled.map Sleeper.woken
    asleep := others }

def cancelCurrent (s : Sequencer) : Sequencer :=
  { s with runs := s.runs.cancelActive }.wakeCancelled

def beginRun (s : Sequencer) : ActiveRun × Sequencer :=
  let (run, runs) := s.runs.start
  (run, { s with runs }.wakeCancelled)

/-- Executes the head of a script, and starts a walker for the rest if there is one. -/
def startScript (run : ActiveRun) (epoch : Nat) (s : Sequencer) (script : Script × Nat) : Sequencer :=
  let s := s.dispatch run.id script.2 script.1.head
  if script.1.rest.isEmpty then s
  else (s.enter epoch).spawn (.walk ⟨run.id, run.scope, epoch, script.2, script.1.rest⟩)

/-- Makes a new run the current one, after a snapshot for undo. -/
def openRun (s : Sequencer) (event : Event) : ActiveRun × Sequencer :=
  let before := s.store.snapshot
  let (run, s) := { s with store := s.store.push before }.beginRun
  (run, s.note (.started s.now run.id event before))

def startScripts (s : Sequencer) (run : ActiveRun) (epoch : Nat) (scripts : List Script)
    (place : Nat) : Sequencer :=
  (scripts.zipIdx place).foldl (startScript run epoch) s

/-- Starts all scripts of an event as a new run. Without such a script nothing happens. -/
def start (s : Sequencer) (event : Event) : Option Stamp × Sequencer :=
  match s.program.scriptsFor event with
  | [] => (none, s)
  | scripts =>
    let (run, s) := s.openRun event
    (some run.id, s.startScripts run s.runs.epoch scripts 0)

/-- The run control: starts the scripts of the flag unless something is playing. -/
def run (s : Sequencer) : Option Stamp × Sequencer :=
  if s.isPlaying then (none, s) else s.start .flagClicked

/-- Cancels the current run and brings the newest snapshot back, if there is one. -/
def undo (s : Sequencer) : Bool × Sequencer :=
  let s := s.cancelCurrent
  match s.store.pop with
  | some (entry, store) => (true, { s with store := store.restore entry }.note (.undone s.now))
  | none => (false, s)

/-- Cancels everything and goes back to the sprite before anything happened. -/
def reset (s : Sequencer) : Sequencer :=
  let s := { s with runs := s.runs.reset, inFlight := 0 }.wakeCancelled
  { s with store := s.store.reset }.note (.reset s.now)

/-- Puts in the program of the next runs. The runs that are going on keep theirs. -/
def replaceProgram (s : Sequencer) (program : Program) : Sequencer := { s with program }

def recordPointer (s : Sequencer) (p : Point) : Bool × Sequencer :=
  let (accepted, pointer) := s.pointer.record p s.instant
  (accepted, { s with pointer })

def readPointer (s : Sequencer) : Point × Sequencer :=
  let (p, pointer) := s.pointer.read s.instant
  (p, { s with pointer })

def recordDrawn (s : Sequencer) (p : Point) : Sequencer := { s with bounds := s.bounds.record p }

end SpriteStage.Sequencer
