import SpriteStage.Sprite.Store

/-!
# The journal

What a sequencer notes down of what it does. Nothing reads it while programs run. Times are in
milliseconds.
-/

namespace SpriteStage

structure Step where
  time : Nat
  run : Stamp
  /-- The place of its script among those of the run. -/
  script : Nat
  action : Action
  /-- What the action could look at. -/
  scene : Scene
  effect : Effect

inductive Note where
  /-- A run was started, after a snapshot for undo. -/
  | started (time : Nat) (run : Stamp) (event : Event) (before : Snapshot)
  | executed (step : Step)
  /-- The time of a clear was over, and the run still owned the slot or did not. -/
  | cleared (time : Nat) (slot : Slot) (run : Stamp) (owned : Bool)
  /-- The newest snapshot was brought back. -/
  | undone (time : Nat)
  | reset (time : Nat)

def Note.step? : Note → Option Step
  | .executed step => some step
  | _ => none

end SpriteStage
