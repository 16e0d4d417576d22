import SpriteStage.Json.Reading
import SpriteStage.Json.Printer

/-!
# Settings

Key bindings, timing, the size of the stage and a seed. A text of settings is laid over the
defaults: what it does not name keeps its default.
-/

namespace SpriteStage

open Json

structure KeyBindings where
  run : String := "Enter"
  triggerKey : String := "Space"
  clickSprite : String := "c"
  undo : String := "u"
  reset : String := "r"
  quit : String := "q"
  fullscreen : String := "F11"
deriving DecidableEq, Repr

structure Timing where
  /-- Between two steps of a script. -/
  stepDelayMs : Nat := 10
  /-- The time recorded for a bubble that no timer hides. -/
  sayDurationMs : Nat := 100
  /-- Between two accepted pointer samples. -/
  pointerThrottleMs : Nat := 200
deriving DecidableEq, Repr

/-- The size of the stage, and how much of it a terminal cell covers, in pixels. -/
structure StageSettings where
  widthPx : Float := 400.0
  heightPx : Float := 400.0
  pxPerCol : Float := 8.0
  pxPerRow : Float := 16.0

structure Settings where
  keyBindings : KeyBindings := {}
  timing : Timing := {}
  stage : StageSettings := {}
  /-- The seed of the random targets. -/
  seed : Option Nat := none

/-! ## Reading -/

def KeyBindings.ofTree (t : Tree) : Except Fault KeyBindings :=
  t.readRecord
    [Field.of "run" .optional Tree.readString fun run b => { b with run },
     Field.of "trigger_key" .optional Tree.readString fun triggerKey b => { b with triggerKey },
     Field.of "click_sprite" .optional Tree.readString fun clickSprite b => { b with clickSprite },
     Field.of "undo" .optional Tree.readString fun undo b => { b with undo },
     Field.of "reset" .optional Tree.readString fun reset b => { b with reset },
     Field.of "quit" .optional Tree.readString fun quit b => { b with quit },
     Field.of "fullscreen" .optional Tree.readString fun fullscreen b => { b with fullscreen }]
    {}

def Timing.ofTree (t : Tree) : Except Fault Timing :=
  t.readRecord
    [Field.of "step_delay_ms" .optional Tree.readNat fun stepDelayMs t => { t with stepDelayMs },
     Field.of "say_duration_ms" .optional Tree.readNat
        fun sayDurationMs t => { t with sayDurationMs },
     Field.of "pointer_throttle_ms" .optional Tree.readNat
        fun pointerThrottleMs t => { t with pointerThrottleMs }]
    {}

def StageSettings.ofTree (t : Tree) : Except Fault StageSettings :=
  t.readRecord
    [Field.of "width_px" .optional Tree.readFloat fun widthPx s => { s with widthPx },
     Field.of "height_px" .optional Tree.readFloat fun heightPx s => { s with heightPx },
     Field.of "px_per_col" .optional Tree.readFloat fun pxPerCol s => { s with pxPerCol },
     Field.of "px_per_row" .optional Tree.readFloat fun pxPerRow s => { s with pxPerRow }]
    {}

def Settings.ofTree (t : Tree) : Except Fault Settings :=
  t.readRecord
    [Field.of "key_bindings" .optional KeyBindings.ofTree
        fun keyBindings s => { s with keyBindings },
     Field.of "timing" .optional Timing.ofTree fun timing s => { s with timing },
     Field.of "stage" .optional StageSettings.ofTree fun stage s => { s with stage },
     Field.of "seed" .optional (Tree.readOption Tree.readNat) fun seed s => { s with seed }]
    {}

def Settings.ofText (text : String) : Except Fault Settings :=
  (Document.ofText text.toList).read Settings.ofTree

/-! ## Writing -/

def KeyBindings.toValue (b : KeyBindings) : Value :=
  .obj [("run", .str b.run), ("trigger_key", .str b.triggerKey),
    ("click_sprite", .str b.clickSprite), ("undo", .str b.undo), ("reset", .str b.reset),
    ("quit", .str b.quit), ("fullscreen", .str b.fullscreen)]

def Timing.toValue (t : Timing) : Value :=
  .obj [("step_delay_ms", .num (.int t.stepDelayMs)),
    ("say_duration_ms", .num (.int t.sayDurationMs)),
    ("pointer_throttle_ms", .num (.int t.pointerThrottleMs))]

def StageSettings.toValue (s : StageSettings) : Value :=
  .obj [("width_px", .num (.float s.widthPx)), ("height_px", .num (.float s.heightPx)),
    ("px_per_col", .num (.float s.pxPerCol)), ("px_per_row", .num (.float s.pxPerRow))]

/-- Settings as JSON; the seed is left out when there is none. -/
def Settings.toValue (s : Settings) : Value :=
  .obj ([("key_bindings", s.keyBindings.toValue), ("timing", s.timing.toValue),
    ("stage", s.stage.toValue)] ++ s.seed.toList.map fun n => ("seed", .num (.int n)))

/-! ## Comparing -/

def StageSettings.same (a b : StageSettings) : Bool :=
  a.widthPx == b.widthPx && a.heightPx == b.heightPx && a.pxPerCol == b.pxPerCol &&
    a.pxPerRow == b.pxPerRow

def Settings.same (a b : Settings) : Bool :=
  a.keyBindings == b.keyBindings && a.timing == b.timing && a.stage.same b.stage && a.seed == b.seed

end SpriteStage
