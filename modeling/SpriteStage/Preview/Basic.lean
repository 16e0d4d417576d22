import SpriteStage.Angle
import SpriteStage.Input.Command
import SpriteStage.MenuBar
import SpriteStage.Preview.Tween

/-!
# The preview

The preview follows the sprite of a sequencer and draws it: the stage in a border, a menu bar above
it and a status line below. It changes nothing but the place at which the sprite is drawn, which lags
behind during a glide and which the sequencer aims from.
-/

namespace SpriteStage

structure TerminalSize where
  cols : Nat
  rows : Nat
deriving DecidableEq, Repr

structure Preview where
  sequencer : Sequencer
  controls : Controls
  terminal : TerminalSize
  observer : Observer
  /-- The sprite as it was seen last. -/
  latest : Motion
  /-- Where the sprite is drawn. -/
  drawn : Point
  tween : Option Tween := none
  /-- Whether the menu and the status line say that something is playing. -/
  shownPlaying : Bool := false
  fullscreen : Bool := false

namespace Preview

/-- The stage of the preview: inside a border of one cell, below the menu bar. -/
def stageOf (settings : StageSettings) : Stage := Stage.ofSettings settings 1 2

def boundsOf (settings : StageSettings) : Bounds := .onStage (stageOf settings) none

def ofSequencer (sequencer : Sequencer) (settings : Settings) (terminal : TerminalSize) : Preview :=
  { sequencer
    controls := ⟨settings.keyBindings, stageOf settings.stage⟩
    terminal
    observer := Observer.of sequencer.store
    latest := sequencer.store.motion
    drawn := sequencer.store.motion.position }

/-- The size of the terminal that the stage needs with its border, menu bar and status line. It is
at most the size of the largest terminal. -/
def requiredSize (stage : Stage) : TerminalSize :=
  ⟨min (stage.cols + 2) Stage.maxCells, min (stage.rows + 4) Stage.maxCells⟩

/-! ## Following the sprite -/

/-- Sets out for the place of the sprite that was seen last, or goes there at once when the sprite
does not glide. A tween to that place goes on. -/
def setTarget (p : Preview) (now : Int) : Preview :=
  let target := p.latest.position
  match p.latest.animation with
  | none => { p with tween := none, drawn := target }
  | some animation =>
    let isUnderWay := match p.tween with
      | some t => t.target == target
      | none => false
    if !isUnderWay && p.drawn != target then
      { p with tween := some ⟨p.drawn, target, now, animation.durationMs⟩ }
    else p

def advance (p : Preview) (now : Int) : Preview :=
  match p.tween with
  | none => p
  | some t =>
    let (place, done) := t.sample now
    { p with drawn := place, tween := if done then none else some t }

/-! ## Drawing -/

/-- Draws a text from a cell of the stage on, cut off at the edges of the stage. -/
def put (stage : Stage) (cell : Cell) (style : Option Style) (text : List Char) : List Draw :=
  if 0 ≤ cell.row && cell.row < stage.rows then
    text.zipIdx.flatMap fun (c, i) =>
      let x := cell.col + i
      if 0 ≤ x && x < stage.cols then
        .moveTo (stage.originCol + x.toNat) (stage.originRow + cell.row.toNat) ::
          Draw.styled style (String.singleton c)
      else []
  else []

def glyphLines (rotation : Float) : List (List Char) :=
  [['/', '\\', '_', '/', '\\'],
   ['(', 'o', '.', 'o', ')'],
   [' ', '>', Angle.arrow rotation, '<', ' ']]

/-- A sprite that grew is bold, one that shrank dim. -/
def glyphStyle (size : Float) : Option Style :=
  if size > 0.0 then some .bold else if size < 0.0 then some .dim else none

def bubbleLine (b : Bubble) : List Char :=
  if b.think then ['(', ' '] ++ b.message.toList ++ [' ', ')', ' ', 'o']
  else ['<', ' '] ++ b.message.toList ++ [' ', '>']

/-- Where the bubble of a sprite at a cell begins: above the glyph, or below it where there is no
room above. -/
def bubbleCell (sprite : Cell) : Cell :=
  ⟨sprite.col + (glyphCols / 2 : Nat),
   if 0 < sprite.row then sprite.row - 1 else sprite.row + glyphRows⟩

def drawBlank (stage : Stage) : List Draw :=
  let blank := String.ofList (List.replicate stage.cols ' ')
  (List.range stage.rows).flatMap fun row =>
    [.moveTo stage.originCol (stage.originRow + row), .text blank]

def drawGlyph (stage : Stage) (cell : Cell) (m : Motion) : List Draw :=
  (glyphLines m.rotation).zipIdx.flatMap fun (line, dy) =>
    put stage ⟨cell.col, cell.row + dy⟩ (glyphStyle m.size) line

def drawBubble (stage : Stage) (cell : Cell) (b : Bubble) : List Draw :=
  if b.isVisible then put stage (bubbleCell cell) (some .italic) (bubbleLine b) else []

/-- The stage with a sprite drawn at a place: the bubble over the glyph over the empty stage. -/
def drawStage (stage : Stage) (m : Motion) (place : Point) : List Draw :=
  let cell := stage.spriteCell place
  drawBlank stage ++ drawGlyph stage cell m ++ drawBubble stage cell m.text

def renderStage (p : Preview) : List Draw × Preview :=
  (drawStage p.controls.stage p.latest p.drawn,
    { p with sequencer := p.sequencer.recordDrawn p.drawn })

def drawBorder (stage : Stage) : List Draw :=
  let bottom := stage.originRow + stage.rows
  let line := String.ofList (List.replicate stage.cols '─')
  [.moveTo 0 (stage.originRow - 1), .text ("┌" ++ line ++ "┐"),
    .moveTo 0 bottom, .text ("└" ++ line ++ "┘")] ++
  (List.range stage.rows).flatMap fun row =>
    [.moveTo 0 (stage.originRow + row), .text "│",
      .moveTo (stage.originCol + stage.cols) (stage.originRow + row), .text "│"]

def menuItem (binding label : String) : String := "[" ++ binding ++ "] " ++ label

def menuItems (p : Preview) : List String :=
  let b := p.controls.bindings
  let depth := p.sequencer.store.history.length
  [menuItem b.run (if p.shownPlaying then "run (playing)" else "run"),
    menuItem b.triggerKey "key event",
    menuItem b.clickSprite "click sprite"] ++
  (if p.sequencer.canUndo then [menuItem b.undo ("undo (" ++ toString depth ++ ")")] else []) ++
  [menuItem b.reset "reset", menuItem b.quit "quit"]

def runName (run : Stamp) : String := "#" ++ toString run

def activity (p : Preview) : String :=
  match p.shownPlaying, p.sequencer.current with
  | true, some run => "playing " ++ runName run
  | _, _ => "idle"

def statusText (p : Preview) : String :=
  let m := p.latest
  " x " ++ Decimal.wholeText false m.position.x ++ "  y " ++ Decimal.wholeText false m.position.y ++
    " | dir " ++ Decimal.wholeText false (Angle.turned m.rotation) ++ "° | size " ++
    Decimal.wholeText true m.size ++ " | " ++ p.activity ++ " "

/-- Draws the status line below the border if the terminal has a row for it. -/
def drawStatus (p : Preview) : List Draw :=
  let row := p.controls.stage.originRow + p.controls.stage.rows + 1
  if p.terminal.rows ≤ row then []
  else [.moveTo 0 row, .clearLine] ++ Draw.styled (some .dim) p.statusText

def renderChrome (p : Preview) : List Draw × Preview :=
  let p := { p with shownPlaying := p.sequencer.isPlaying }
  (MenuBar.bar 0 p.menuItems ++ p.drawStatus, p)

def renderFull (p : Preview) : List Draw × Preview :=
  let (stage, p) := p.renderStage
  let (chrome, p) := p.renderChrome
  ([.clearAll] ++ drawBorder p.controls.stage ++ stage ++ chrome, p)

/-! ## What happens in the preview -/

def observe (p : Preview) (now : Int) : List Draw × Preview :=
  let (latest, observer) := p.observer.look p.sequencer.store
  let p := { p with latest, observer }.setTarget now
  let (stage, p) := p.renderStage
  let (chrome, p) := p.renderChrome
  (stage ++ chrome, p)

/-- Draws what a frame changes: a tween that is under way, and whether something is playing. -/
def frame (p : Preview) (now : Int) : List Draw × Preview :=
  let (stage, p) := if p.tween.isSome then (p.advance now).renderStage else ([], p)
  let (chrome, p) :=
    if p.sequencer.isPlaying != p.shownPlaying then p.renderChrome else ([], p)
  (stage ++ chrome, p)

end Preview

end SpriteStage
