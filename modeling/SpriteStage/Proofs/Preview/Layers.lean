import SpriteStage.Proofs.Preview.Painting
import SpriteStage.Proofs.Screen.Cells

/-!
# The layers of a frame

A frame of the stage is a picture of three layers, the bubble over the glyph over the empty stage.
Each is a picture of cells of the stage, wherever the sprite is and however long its message is, and
is cut off at the edges of the stage. So after a frame the stage shows these layers and nothing of
what it showed before, and around it nothing has changed: `paints_layers`.
-/

namespace SpriteStage

namespace Stage

def cellAt (s : Stage) (col row : Nat) : Cell := ⟨col - s.originCol, row - s.originRow⟩

/-- A layer of cells of the stage, cut off at the edges of the stage. -/
def cutOff (s : Stage) (layer : Cell → Option Char) : Picture :=
  fun col row => if s.Shows col row then layer (s.cellAt col row) else none

end Stage

namespace Preview

/-! ## The layers -/

/-- The character of a line of text, which begins at a cell, where it covers another cell. -/
def lineChar? (start : Cell) (text : List Char) (c : Cell) : Option Char :=
  if c.row = start.row ∧ start.col ≤ c.col then text[(c.col - start.col).toNat]? else none

/-- The eighth of the circle around which an angle lies, from the right on and clockwise. -/
def eighth (rotation : Float) : Nat :=
  ((Angle.turned rotation + 22.5) / 45.0).floor.toUInt64.toNat % 8

def eighthArrow : Nat → Char
  | 0 => '→'
  | 1 => '↘'
  | 2 => '↓'
  | 3 => '↙'
  | 4 => '←'
  | 5 => '↖'
  | 6 => '↑'
  | _ => '↗'

/-- The rows of a glyph. The arrow between its paws is that of the heading. -/
def glyphTexts (rotation : Float) : List String :=
  ["/\\_/\\", "(o.o)", " >" ++ String.singleton (eighthArrow (eighth rotation)) ++ "< "]

def bubbleText (b : Bubble) : String :=
  if b.think then "( " ++ b.message ++ " ) o" else "< " ++ b.message ++ " >"

/-- The character of the glyph of a sprite at a cell, where it covers another cell. -/
def glyphChar? (corner : Cell) (rotation : Float) (c : Cell) : Option Char :=
  if corner.row ≤ c.row then
    ((glyphTexts rotation)[(c.row - corner.row).toNat]?).bind fun text =>
      lineChar? ⟨corner.col, c.row⟩ text.toList c
  else none

/-- The character of the bubble of a sprite at a cell, where it covers another cell: a line that
begins two columns to the right, on the row above the glyph if the stage has one, else on the row
below. -/
def bubbleChar? (corner : Cell) (b : Bubble) (c : Cell) : Option Char :=
  if 0 < b.durationMs then
    lineChar? ⟨corner.col + 2, if 0 < corner.row then corner.row - 1 else corner.row + 3⟩
      (bubbleText b).toList c
  else none

/-- The character of the bubble, else that of the glyph, else a blank. -/
def layered (corner : Cell) (m : Motion) (c : Cell) : Char :=
  ((bubbleChar? corner m.text c).or (glyphChar? corner m.rotation c)).getD ' '

theorem arrow_eq (rotation : Float) : Angle.arrow rotation = eighthArrow (eighth rotation) := by
  have hlt : eighth rotation < 8 := Nat.mod_lt _ (by decide)
  have harrow : ∀ k < 8, Angle.arrows.getD k '→' = eighthArrow k := by decide
  exact harrow _ hlt

theorem glyphLines_eq (rotation : Float) :
    glyphLines rotation = (glyphTexts rotation).map String.toList := by
  simp [glyphLines, glyphTexts, arrow_eq]

theorem bubbleLine_eq (b : Bubble) : bubbleLine b = (bubbleText b).toList := by
  unfold bubbleLine bubbleText
  split <;> simp

theorem lineChar?_eq_some {start c : Cell} {text : List Char} {ch : Char} :
    lineChar? start text c = some ch ↔
      c.row = start.row ∧ ∃ i : Nat, text[i]? = some ch ∧ c.col = start.col + i := by
  unfold lineChar?
  constructor
  · intro h
    split at h
    case isTrue hc => exact ⟨hc.1, _, h, by omega⟩
    case isFalse => cases h
  · rintro ⟨hrow, i, hi, hcol⟩
    have hoffset : (c.col - start.col).toNat = i := by omega
    rw [if_pos ⟨hrow, by omega⟩, hoffset, hi]

theorem glyphChar?_eq (corner : Cell) (rotation : Float) (c : Cell) :
    glyphChar? corner rotation c = if corner.row ≤ c.row then
      ((glyphLines rotation)[(c.row - corner.row).toNat]?).bind (lineChar? ⟨corner.col, c.row⟩ · c)
      else none := by
  rw [glyphLines_eq, List.getElem?_map, Option.bind_map]
  rfl

theorem glyphChar?_eq_some {corner c : Cell} {rotation : Float} {ch : Char} :
    glyphChar? corner rotation c = some ch ↔ ∃ a ∈ (glyphLines rotation).zipIdx,
      lineChar? ⟨corner.col, corner.row + a.2⟩ a.1 c = some ch := by
  rw [glyphChar?_eq]
  constructor
  · intro h
    split at h
    case isTrue hrow =>
      obtain ⟨line, hline, hch⟩ := Option.bind_eq_some_iff.mp h
      refine ⟨(line, (c.row - corner.row).toNat), List.mem_zipIdx_iff_getElem?.mpr hline, ?_⟩
      have hsame : corner.row + ((c.row - corner.row).toNat : Int) = c.row := by omega
      rwa [hsame]
    case isFalse => cases h
  · rintro ⟨⟨line, dy⟩, hmem, hch⟩
    have hrow : c.row = corner.row + dy := (lineChar?_eq_some.mp hch).1
    have hoffset : (c.row - corner.row).toNat = dy := by omega
    rw [if_pos (by omega), hoffset, List.mem_zipIdx_iff_getElem?.mp hmem, Option.bind_some, hrow]
    exact hch

/-- The glyph covers five by three cells. -/
theorem isSome_glyphChar? (corner : Cell) (rotation : Float) (c : Cell) :
    (glyphChar? corner rotation c).isSome = true ↔
      (corner.col ≤ c.col ∧ c.col < corner.col + 5) ∧
        corner.row ≤ c.row ∧ c.row < corner.row + 3 := by
  have hlines : (glyphLines rotation).length = 3 := rfl
  rw [Option.isSome_iff_exists]
  constructor
  · rintro ⟨ch, h⟩
    obtain ⟨⟨line, dy⟩, hmem, hch⟩ := glyphChar?_eq_some.mp h
    obtain ⟨hrow, i, hi, hcol⟩ := lineChar?_eq_some.mp hch
    have hget := List.mem_zipIdx_iff_getElem?.mp hmem
    have hlength : line.length = 5 := length_of_mem_glyphLines (List.mem_of_getElem? hget)
    have hdy := (List.getElem?_eq_some_iff.mp hget).1
    have hi := (List.getElem?_eq_some_iff.mp hi).1
    simp only at hrow hcol hdy hi
    omega
  · rintro ⟨hcols, hrows⟩
    have hdy : (c.row - corner.row).toNat < (glyphLines rotation).length := by omega
    have hi : (c.col - corner.col).toNat <
        (glyphLines rotation)[(c.row - corner.row).toNat].length := by
      rw [length_of_mem_glyphLines (List.getElem_mem hdy)]
      simp only [glyphCols]
      omega
    refine ⟨(glyphLines rotation)[(c.row - corner.row).toNat][(c.col - corner.col).toNat], ?_⟩
    rw [glyphChar?_eq, if_pos hrows.1, List.getElem?_eq_getElem hdy, Option.bind_some, lineChar?,
      if_pos ⟨rfl, hcols.1⟩, List.getElem?_eq_getElem hi]

/-! ## The drawing -/

variable {stage : Stage}

theorem cutOff_eq_some {layer : Cell → Option Char} {m : Mark} :
    stage.cutOff layer m.col m.row = some m.char ↔
      stage.Shows m.col m.row ∧ layer (stage.cellAt m.col m.row) = some m.char := by
  unfold Stage.cutOff
  split
  case isTrue h => exact (and_iff_right h).symm
  case isFalse h => exact iff_of_false nofun fun hm => h hm.1

/-- What a text leaves on the stage is its line, cut off. -/
theorem spells_iff {start : Cell} {text : List Char} {m : Mark} :
    stage.Spells start text m ↔ stage.cutOff (lineChar? start text) m.col m.row = some m.char := by
  rw [cutOff_eq_some, lineChar?_eq_some, Stage.Spells]
  refine and_congr_right fun hshows => ?_
  simp only [Stage.cellAt]
  constructor
  · rintro ⟨hrow, i, hi, hcol⟩
    exact ⟨by omega, i, hi, by omega⟩
  · rintro ⟨hrow, i, hi, hcol⟩
    exact ⟨by omega, i, hi, by omega⟩

theorem clears_put {cell : Cell} {style : Option Style} {text : List Char} :
    ∀ d ∈ put stage cell style text, d.clears = false := by
  intro d hd
  unfold put at hd
  split at hd
  case isTrue =>
    obtain ⟨⟨c, i⟩, -, hd⟩ := List.mem_flatMap.mp hd
    dsimp only at hd
    split at hd
    · rcases List.mem_cons.mp hd with rfl | hd
      · rfl
      · exact Draw.clears_styled d hd
    · cases hd
  case isFalse => cases hd

theorem paints_blank (stage : Stage) :
    Paints (drawBlank stage) (stage.cutOff fun _ => some ' ') := by
  apply (prints_blank stage).paints
  · intro d hd
    obtain ⟨row, -, hd⟩ := List.mem_flatMap.mp hd
    rcases List.mem_cons.mp hd with rfl | hd
    · rfl
    · rw [List.mem_singleton.mp hd]
      rfl
  · intro m
    rw [cutOff_eq_some, Option.some.injEq, eq_comm]

theorem paints_glyph (stage : Stage) (corner : Cell) (m : Motion) :
    Paints (drawGlyph stage corner m) (stage.cutOff (glyphChar? corner m.rotation)) := by
  apply (prints_glyph stage corner m).paints
  · intro d hd
    obtain ⟨a, -, ha⟩ := List.mem_flatMap.mp hd
    exact clears_put d ha
  · intro k
    simp only [spells_iff, cutOff_eq_some, glyphChar?_eq_some]
    constructor
    · rintro ⟨a, ha, hshows, hch⟩
      exact ⟨hshows, a, ha, hch⟩
    · rintro ⟨hshows, a, ha, hch⟩
      exact ⟨a, ha, hshows, hch⟩

theorem paints_bubble (stage : Stage) (corner : Cell) (b : Bubble) :
    Paints (drawBubble stage corner b) (stage.cutOff (bubbleChar? corner b)) := by
  have hvisible : b.isVisible = true ↔ 0 < b.durationMs := decide_eq_true_iff
  apply (prints_bubble stage corner b).paints
  · intro d hd
    unfold drawBubble at hd
    split at hd
    · exact clears_put d hd
    · cases hd
  · intro k
    rw [spells_iff, cutOff_eq_some, cutOff_eq_some, hvisible]
    unfold bubbleChar?
    rw [bubbleLine_eq]
    split
    case isTrue h => exact and_iff_right h
    case isFalse h => exact iff_of_false (fun hk => h hk.1) fun hk => nomatch hk.2

/-- **A frame paints its layers and nothing else.** Whatever the terminal showed and wherever its
cursor was, after a frame each cell of the stage shows the bubble, else the glyph, else a blank;
every other cell shows what it showed. The glyph covers five by three cells, and the arrow in it is
that of the heading. -/
theorem paints_layers (p : Preview) :
    (∀ (t : Terminal) (col row : Nat), (t.draw p.renderStage.1).cells col row =
      if p.controls.stage.Shows col row then
        layered (p.controls.stage.spriteCell p.drawn) p.latest (p.controls.stage.cellAt col row)
      else t.cells col row) ∧
    ∀ corner rotation c, (glyphChar? corner rotation c).isSome = true ↔
      (corner.col ≤ c.col ∧ c.col < corner.col + 5) ∧
        corner.row ≤ c.row ∧ c.row < corner.row + 3 := by
  refine ⟨fun t col row => ?_, isSome_glyphChar?⟩
  have hframe := ((paints_blank p.controls.stage).append
    (paints_glyph p.controls.stage (p.controls.stage.spriteCell p.drawn) p.latest)).append
    (paints_bubble p.controls.stage (p.controls.stage.spriteCell p.drawn) p.latest.text)
  show (t.draw (drawStage p.controls.stage p.latest p.drawn)).cells col row = _
  rw [drawStage, hframe t col row, Picture.over, Picture.over, Stage.cutOff, Stage.cutOff,
    Stage.cutOff]
  by_cases hshows : p.controls.stage.Shows col row
  · simp only [if_pos hshows, layered]
    cases bubbleChar? (p.controls.stage.spriteCell p.drawn) p.latest.text
        (p.controls.stage.cellAt col row) with
    | some ch => rfl
    | none =>
        cases glyphChar? (p.controls.stage.spriteCell p.drawn) p.latest.rotation
            (p.controls.stage.cellAt col row) with
        | some ch => rfl
        | none => rfl
  · simp only [if_neg hshows]
    rfl

end Preview

end SpriteStage
