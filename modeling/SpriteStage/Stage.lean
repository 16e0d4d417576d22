import SpriteStage.Decimal.Binary
import SpriteStage.Settings
import SpriteStage.Sprite.Motion

/-!
# The stage

The stage is drawn from a cell of the terminal on, each cell covering a fixed number of pixels. Stage
positions are pixels from the corner of the stage, screen points pixels from the corner of the
terminal. The sprite is a glyph of five by three cells.
-/

namespace SpriteStage

def glyphCols : Nat := 5
def glyphRows : Nat := 3

/-- A cell relative to the stage's corner; it may lie outside the stage. -/
structure Cell where
  col : Int
  row : Int
deriving DecidableEq, Repr

structure Stage where
  originCol : Nat
  originRow : Nat
  pxPerCol : Float
  pxPerRow : Float
  widthPx : Float
  heightPx : Float

namespace Stage

/-- A cell covers at least one pixel. -/
def atLeastOne (x : Float) : Float := if x > 1.0 then x else 1.0

def ofSettings (s : StageSettings) (originCol originRow : Nat) : Stage :=
  ⟨originCol, originRow, atLeastOne s.pxPerCol, atLeastOne s.pxPerRow, s.widthPx, s.heightPx⟩

def maxCells : Nat := 65535

/-- The cells that a length covers, at least one and `maxCells` at most; a length that is no number
covers none. -/
def cells (px pxPerCell : Float) : Nat :=
  (Decimal.wholeWithin Decimal.Binary.ceil 1 maxCells (px / pxPerCell)).toNat

theorem cells_le (px pxPerCell : Float) : cells px pxPerCell ≤ maxCells := by
  unfold cells Decimal.wholeWithin maxCells
  split
  · omega
  · split
    · omega
    · split <;> omega

def cols (s : Stage) : Nat := cells s.widthPx s.pxPerCol

def rows (s : Stage) : Nat := cells s.heightPx s.pxPerRow

def cellCenter (s : Stage) (col row : Nat) : Point :=
  ⟨(Float.ofNat col + 0.5) * s.pxPerCol, (Float.ofNat row + 0.5) * s.pxPerRow⟩

/-- The cell in which a coordinate lies, as far as thirty-two bits reach. -/
def cellIndex (px pxPerCell : Float) : Int :=
  Decimal.wholeWithin Decimal.Binary.floor (-2147483648) 2147483647 (px / pxPerCell)

def spriteCell (s : Stage) (position : Point) : Cell :=
  ⟨cellIndex position.x s.pxPerCol, cellIndex position.y s.pxPerRow⟩

def centerAt (s : Stage) (position : Point) : Point :=
  let cell := s.spriteCell position
  let left := Float.ofInt (s.originCol + cell.col) * s.pxPerCol
  let top := Float.ofInt (s.originRow + cell.row) * s.pxPerRow
  ⟨left + Float.ofNat glyphCols * s.pxPerCol / 2.0, top + Float.ofNat glyphRows * s.pxPerRow / 2.0⟩

def hits (s : Stage) (col row : Nat) (position : Point) : Bool :=
  let cell := s.spriteCell position
  let x : Int := col - s.originCol - cell.col
  let y : Int := row - s.originRow - cell.row
  (0 ≤ x && x < glyphCols) && (0 ≤ y && y < glyphRows)

end Stage

/-- Where the middle of the sprite is on the screen: at a fixed point, or on a stage, where a sprite
that was drawn is taken to be where it was drawn last. -/
inductive Bounds where
  | fixed (center : Point)
  | onStage (stage : Stage) (drawn : Option Point)

namespace Bounds

def center (b : Bounds) (position : Point) : Point :=
  match b with
  | .fixed p => p
  | .onStage stage drawn => stage.centerAt (drawn.getD position)

def record (b : Bounds) (drawn : Point) : Bounds :=
  match b with
  | .fixed p => .fixed p
  | .onStage stage _ => .onStage stage (some drawn)

end Bounds

end SpriteStage
