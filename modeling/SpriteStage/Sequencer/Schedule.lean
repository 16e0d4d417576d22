import SpriteStage.Sequencer.Clock
import SpriteStage.Sequencer.Trigger

/-!
# Schedules

The orders in which things can happen to a sequencer. A schedule is a list of moves: calls from
outside, turns of ready tasks in any order, and the passing of time between them. `InTurn` singles
out the schedules that keep to the queue and to the clock; the functions that give turns and let time
pass follow such schedules.
-/

namespace SpriteStage

inductive Call where
  | start (event : Event)
  | run
  | undo
  | reset
  | replaceProgram (program : Program)
  | recordPointer (p : Point)
  | readPointer
  | recordDrawn (p : Point)

inductive Reply where
  | done
  | started (run : Option Stamp)
  | undone (any : Bool)
  | recorded (atOnce : Bool)
  | pointer (p : Point)

inductive Move where
  | call (c : Call)
  /-- The ready task at a place of the queue has its turn. If it is a clear that is due when its
  session is over, `dueFirst` says which of the two it sees first. -/
  | turn (place : Nat) (dueFirst : Bool)
  | pass (ms : Nat)
  /-- A round ends. -/
  | rejoin

namespace Sequencer

def call (s : Sequencer) : Call → Reply × Sequencer
  | .start event => ((s.start event).map Reply.started id)
  | .run => s.run.map Reply.started id
  | .undo => s.undo.map Reply.undone id
  | .reset => (.done, s.reset)
  | .replaceProgram program => (.done, s.replaceProgram program)
  | .recordPointer p => (s.recordPointer p).map Reply.recorded id
  | .readPointer => s.readPointer.map Reply.pointer id
  | .recordDrawn p => (.done, s.recordDrawn p)

def turnAt (s : Sequencer) (place : Nat) (dueFirst : Bool) : Sequencer :=
  match s.ready[place]? with
  | none => s
  | some t => { s with ready := s.ready.eraseIdx place }.turn dueFirst t

def move (s : Sequencer) : Move → Sequencer
  | .call c => (s.call c).2
  | .turn place dueFirst => s.turnAt place dueFirst
  | .pass ms => s.wakeAt (s.now + ms)
  | .rejoin => s.rejoin

@[simp] theorem move_call (s : Sequencer) (c : Call) : s.move (.call c) = (s.call c).2 := rfl

@[simp] theorem move_turn (s : Sequencer) (place : Nat) (dueFirst : Bool) :
    s.move (.turn place dueFirst) = s.turnAt place dueFirst := rfl

@[simp] theorem move_pass (s : Sequencer) (ms : Nat) :
    s.move (.pass ms) = s.wakeAt (s.now + ms) := rfl

@[simp] theorem move_rejoin (s : Sequencer) : s.move .rejoin = s.rejoin := rfl

def moves (s : Sequencer) (ms : List Move) : Sequencer := ms.foldl move s

@[simp] theorem moves_nil (s : Sequencer) : s.moves [] = s := rfl

@[simp] theorem moves_cons (s : Sequencer) (m : Move) (ms : List Move) :
    s.moves (m :: ms) = (s.move m).moves ms := rfl

theorem moves_append (s : Sequencer) (ms ns : List Move) :
    s.moves (ms ++ ns) = (s.moves ms).moves ns := List.foldl_append

/-- A sequencer with nothing going on, built around the program, the clock, the random numbers and
all else that is not the doing of runs. -/
def rebuilt (s : Sequencer) : Sequencer :=
  { pointer := s.pointer
    bounds := s.bounds
    generator := s.generator
    timing := s.timing
    stage := s.stage
    program := s.program
    now := s.now
    lag := s.lag }

/-- The states that a sequencer comes to, whatever is asked of it and in whatever order its tasks
have their turns. -/
inductive Reachable : Sequencer → Prop where
  | built (s : Sequencer) : Reachable s.rebuilt
  | move {s : Sequencer} (m : Move) : Reachable s → Reachable (s.move m)

theorem Reachable.moves {s : Sequencer} (hs : Reachable s) (ms : List Move) :
    Reachable (s.moves ms) := by
  induction ms generalizing s with
  | nil => exact hs
  | cons m ms ih => exact ih (hs.move m)

/-- A move keeps to the queue when the task it gives a turn is the next one, and to the clock when
time passes only while no task is ready, and not beyond an instant at which one is due. -/
def IsInTurn (s : Sequencer) : Move → Prop
  | .turn place _ => place = 0
  | .pass ms => s.ready = [] ∧ s.yielded = [] ∧ ∀ t ∈ s.asleep, s.now + ms ≤ t.due
  | _ => True

def InTurn : Sequencer → List Move → Prop
  | _, [] => True
  | s, m :: ms => s.IsInTurn m ∧ InTurn (s.move m) ms

instance (s : Sequencer) : (m : Move) → Decidable (s.IsInTurn m)
  | .turn place _ => inferInstanceAs (Decidable (place = 0))
  | .pass ms => inferInstanceAs
      (Decidable (s.ready = [] ∧ s.yielded = [] ∧ ∀ t ∈ s.asleep, s.now + ms ≤ t.due))
  | .call _ => inferInstanceAs (Decidable True)
  | .rejoin => inferInstanceAs (Decidable True)

instance decidableInTurn : (s : Sequencer) → (ms : List Move) → Decidable (s.InTurn ms)
  | _, [] => inferInstanceAs (Decidable True)
  | s, m :: ms =>
    let _ := decidableInTurn (s.move m) ms
    inferInstanceAs (Decidable (s.IsInTurn m ∧ (s.move m).InTurn ms))

theorem inTurn_append {s : Sequencer} {ms ns : List Move} :
    s.InTurn (ms ++ ns) ↔ s.InTurn ms ∧ (s.moves ms).InTurn ns := by
  induction ms generalizing s with
  | nil => simp [InTurn]
  | cons m ms ih => simp [InTurn, ih, and_assoc]

def threeActions (stepDelayMs : Nat) : Sequencer :=
  { pointer := ThrottledPointer.ofMillis 200
    bounds := .fixed ⟨0.0, 0.0⟩
    generator := Generator.ofSeed 0
    timing := { stepDelayMs }
    stage := {}
    program := ⟨[⟨.hat .flagClicked, [.unrecognized "first", .unrecognized "second"]⟩]⟩ }

end Sequencer

end SpriteStage
