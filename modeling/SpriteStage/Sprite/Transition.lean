import SpriteStage.Duration
import SpriteStage.Program.Action
import SpriteStage.Random
import SpriteStage.Stage

/-!
# What an action does to the sprite

`Action.apply` takes the sprite to the next one. It never waits: an action that needs something later,
the end of a glide or the hiding of a bubble, says so in the `Effect` it reports.
-/

namespace SpriteStage

/-- What an action did to a slot, the bubble or the animation. -/
inductive SlotWrite where
  | untouched
  /-- Written, to stay until something else is written. -/
  | lasting
  /-- Written, to be cleared once the time is over. -/
  | timed (time : Duration)
deriving DecidableEq, Repr

def SlotWrite.isWritten : SlotWrite → Bool
  | .untouched => false
  | _ => true

/-- The time after which what was written is to be cleared. -/
def SlotWrite.time? : SlotWrite → Option Duration
  | .timed d => some d
  | _ => none

structure Effect where
  text : SlotWrite := .untouched
  animation : SlotWrite := .untouched
deriving DecidableEq, Repr

structure Scene where
  /-- The pointer on the screen. -/
  pointer : Point
  bounds : Bounds
  stage : StageSettings
  /-- The time recorded for a bubble that no timer hides. -/
  sayDuration : Duration
  generator : Generator

structure Outcome where
  motion : Motion
  effect : Effect
  generator : Generator

/-- A random point on the stage, and the generator after its draws: first across, then down. -/
def Scene.randomPoint (ctx : Scene) : Point × Generator :=
  let (x, g) := ctx.generator.below ctx.stage.widthPx
  let (y, g) := g.below ctx.stage.heightPx
  (⟨x, y⟩, g)

def degreesPerRadian : Float := 57.29577951308232

/-- The direction from one point to another in degrees from 0 up to 360, growing clockwise on a
screen where `y` grows downwards. -/
def heading (source target : Point) : Float :=
  let angle := Float.atan2 (target.y - source.y) (target.x - source.x) * degreesPerRadian
  if angle < 0.0 then angle + 360.0 else angle

namespace Motion

/-- Puts the sprite at its target at once and lets the preview draw the way there. -/
def glide (m : Motion) (seconds : Float) (target : Point) : Motion × Effect :=
  let time := Duration.ofSeconds seconds
  ({ m with position := target, animation := some ⟨.glide, time.millis⟩ },
   { animation := .timed time })

def speak (m : Motion) (message : String) (time : Duration) (think : Bool) : Motion × Effect :=
  ({ m with text := ⟨message, time.millis, think⟩ }, { text := .lasting })

def speakFor (m : Motion) (message : String) (seconds : Float) (think : Bool) : Motion × Effect :=
  let time := Duration.ofSeconds seconds
  ((m.speak message time think).1, { text := .timed time })

def moveX (m : Motion) (delta : Float) : Motion :=
  { m with position := { m.position with x := m.position.x + delta } }

def moveY (m : Motion) (delta : Float) : Motion :=
  { m with position := { m.position with y := m.position.y + delta } }

end Motion

def Action.apply (a : Action) (m : Motion) (ctx : Scene) : Outcome :=
  let only (m : Motion) : Outcome := ⟨m, {}, ctx.generator⟩
  let touching (r : Motion × Effect) : Outcome := ⟨r.1, r.2, ctx.generator⟩
  match a with
  | .hat _ => only m
  | .unrecognized _ => only m
  | .goTo x y => only { m with position := ⟨x, y⟩ }
  | .goToRandom =>
    let (target, g) := ctx.randomPoint
    ⟨{ m with position := target }, {}, g⟩
  | .clockwise angle => only { m with rotation := m.rotation + angle }
  | .anticlockwise angle => only { m with rotation := m.rotation - angle }
  | .glide seconds x y => touching (m.glide seconds ⟨x, y⟩)
  | .glideRandom seconds =>
    let (target, g) := ctx.randomPoint
    let (m, effect) := m.glide seconds target
    ⟨m, effect, g⟩
  | .pointInDirection direction => only { m with rotation := direction }
  | .pointTowards .pointer =>
    touching ({ m with
        rotation := heading (ctx.bounds.center m.position) ctx.pointer
        animation := none }, { animation := .lasting })
  | .pointTowards (.other _) => only m
  | .move steps => only (m.moveX steps)
  | .changeXBy delta => only (m.moveX delta)
  | .setX x => only { m with position := { m.position with x } }
  | .changeYBy delta => only (m.moveY delta)
  | .setY y => only { m with position := { m.position with y } }
  | .sayForSeconds message seconds => touching (m.speakFor message seconds false)
  | .say message => touching (m.speak message ctx.sayDuration false)
  | .thinkForSeconds message seconds => touching (m.speakFor message seconds true)
  | .think message => touching (m.speak message ctx.sayDuration true)
  | .changeSize delta => only { m with size := m.size + delta }

end SpriteStage
