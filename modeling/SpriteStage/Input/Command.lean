import SpriteStage.Input.Binding
import SpriteStage.Sequencer.Trigger

/-!
# Commands

What an event of the terminal asks for, and what a command does to the sequencer. Pointer movement
is recorded on the way and asks for nothing.
-/

namespace SpriteStage

inductive Command where
  /-- Nothing to do. -/
  | proceed
  | redraw
  | run
  | keyTrigger
  | clickSprite
  | undo
  | reset
  | toggleFullscreen
  | quit
deriving DecidableEq, Repr

/-- What input is read with: the bindings, and the stage that is clicked on. -/
structure Controls where
  bindings : KeyBindings
  stage : Stage

namespace Sequencer

def canUndo (s : Sequencer) : Bool := !s.store.history.isEmpty

end Sequencer

namespace Controls

/-- The command of a key. Of several bindings that fire the first of this order counts. -/
def keyCommand (c : Controls) (s : Sequencer) (k : Key) : Command :=
  let b := c.bindings
  if k.fires b.quit then .quit
  else if k.fires b.triggerKey then .keyTrigger
  else if k.fires b.run then .run
  else if k.fires b.clickSprite then .clickSprite
  else if k.fires b.undo then if s.canUndo then .undo else .proceed
  else if k.fires b.reset then .reset
  else if k.fires b.fullscreen then .toggleFullscreen
  else .proceed

/-- The command of an event, and the sequencer with the pointer sample that the event was. -/
def respond (c : Controls) (s : Sequencer) : TerminalEvent → Command × Sequencer
  | .key k => (if k.move = .release then .proceed else c.keyCommand s k, s)
  | .mouse .moved col row => (.proceed, (s.recordPointer (c.stage.cellCenter col row)).2)
  | .mouse .dragged col row => (.proceed, (s.recordPointer (c.stage.cellCenter col row)).2)
  | .mouse .leftPressed col row =>
    (if c.stage.hits col row s.store.motion.position then .clickSprite else .proceed, s)
  | .mouse .other _ _ => (.proceed, s)
  | .resized => (.redraw, s)
  | .other => (.proceed, s)

end Controls

/-- Carries a command out, and says whether the menu and the status line are to be drawn again. -/
def Command.dispatch (c : Command) (s : Sequencer) : Bool × Sequencer :=
  match c with
  | .run =>
    let (started, s) := s.run
    (started.isSome, s)
  | .keyTrigger =>
    let (started, s) := s.start .keyPressed
    (started.isSome, s)
  | .clickSprite =>
    let (started, s) := s.start .spriteClicked
    (started.isSome, s)
  | .undo => s.undo
  | .reset => (true, s.reset)
  | .redraw => (true, s)
  | .proceed => (false, s)
  | .toggleFullscreen => (false, s)
  | .quit => (false, s)

end SpriteStage
