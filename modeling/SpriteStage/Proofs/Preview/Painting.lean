import SpriteStage.Preview.Basic
import SpriteStage.Proofs.Screen.Marks

/-!
# What the preview paints

The marks of each part of the preview. A text on the stage is cut off at its edges: `prints_put`. So the
glyph fills the cells of its box that the stage shows, `glyphAt_iff`, and everything that is drawn on
the stage stays on it. Around it are the border and, on rows of their own, the bars.
-/

namespace SpriteStage

/-! ## Cells of the stage -/

namespace Stage

def Shows (s : Stage) (col row : Nat) : Prop :=
  (s.originCol ≤ col ∧ col < s.originCol + s.cols) ∧ s.originRow ≤ row ∧ row < s.originRow + s.rows

/-- Whether a terminal cell lies in the box of a glyph at a cell, be it on the stage or not. -/
def Boxes (s : Stage) (cell : Cell) (col row : Nat) : Prop :=
  (s.originCol + cell.col ≤ (col : Int) ∧ (col : Int) < s.originCol + cell.col + glyphCols) ∧
    s.originRow + cell.row ≤ (row : Int) ∧ (row : Int) < s.originRow + cell.row + glyphRows

/-- What a text leaves on the stage that begins at a cell, be it on the stage or not. -/
def Spells (s : Stage) (cell : Cell) (text : List Char) (m : Mark) : Prop :=
  s.Shows m.col m.row ∧ (m.row : Int) = s.originRow + cell.row ∧
    ∃ i : Nat, text[i]? = some m.char ∧ (m.col : Int) = s.originCol + cell.col + i

instance (s : Stage) (col row : Nat) : Decidable (s.Shows col row) :=
  inferInstanceAs (Decidable (_ ∧ _))

instance (s : Stage) (cell : Cell) (col row : Nat) : Decidable (s.Boxes cell col row) :=
  inferInstanceAs (Decidable (_ ∧ _))

theorem hits_iff (s : Stage) (col row : Nat) (position : Point) :
    s.hits col row position = true ↔ s.Boxes (s.spriteCell position) col row := by
  simp only [hits, Boxes, Bool.and_eq_true, decide_eq_true_eq]
  omega

end Stage

namespace Preview

variable {stage : Stage}

/-- A text on the stage is cut off at the edges of the stage. -/
theorem prints_put (stage : Stage) (cell : Cell) (style : Option Style) (text : List Char) :
    Prints (put stage cell style text) (stage.Spells cell text) := by
  have hchar (a : Char × Nat) : Prints
      (if 0 ≤ cell.col + a.2 && cell.col + a.2 < stage.cols then
        .moveTo (stage.originCol + (cell.col + a.2).toNat) (stage.originRow + cell.row.toNat) ::
          Draw.styled style (String.singleton a.1) else [])
      fun m => (0 ≤ cell.col + a.2 && cell.col + a.2 < stage.cols) = true ∧
        m = ⟨stage.originCol + (cell.col + a.2).toNat, stage.originRow + cell.row.toNat, a.1⟩ := by
    refine (Prints.guard (prints_moveTo (by simp) _ _) _).congr fun m => ?_
    simp [reads_singleton]
  refine ((Prints.flatMap hchar text.zipIdx).guard _).congr fun m => ?_
  obtain ⟨col, row, ch⟩ := m
  simp only [Bool.and_eq_true, decide_eq_true_eq, Stage.Spells, Stage.Shows, Prod.exists,
    List.mem_zipIdx_iff_getElem?, Mark.mk.injEq]
  constructor
  · rintro ⟨hrow, c, i, hi, hcol, rfl, rfl, rfl⟩
    exact ⟨by omega, by omega, i, hi, by omega⟩
  · rintro ⟨hshows, hrow, i, hi, hcol⟩
    exact ⟨by omega, ch, i, hi, by omega, by omega, by omega, rfl⟩

/-! ## The stage -/

theorem prints_blank (stage : Stage) :
    Prints (drawBlank stage) fun m => stage.Shows m.col m.row ∧ m.char = ' ' := by
  have hrow (row : Nat) : Prints
      [.moveTo stage.originCol (stage.originRow + row),
        .text (String.ofList (List.replicate stage.cols ' '))]
      (Reads stage.originCol (stage.originRow + row) (List.replicate stage.cols ' ')) := by
    simpa using prints_text stage.originCol (stage.originRow + row)
      (String.ofList (List.replicate stage.cols ' '))
  refine (Prints.flatMap hrow (List.range stage.rows)).congr fun m => ?_
  simp only [List.mem_range, Reads, List.getElem?_replicate, Option.ite_none_right_eq_some,
    Option.some.injEq, Stage.Shows]
  constructor
  · rintro ⟨row, hlt, hrow, i, ⟨hi, hch⟩, hcol⟩
    exact ⟨by omega, hch.symm⟩
  · rintro ⟨hshows, hch⟩
    exact ⟨m.row - stage.originRow, by omega, by omega, m.col - stage.originCol,
      ⟨by omega, hch.symm⟩, by omega⟩

theorem prints_glyph (stage : Stage) (cell : Cell) (m : Motion) :
    Prints (drawGlyph stage cell m) fun k => ∃ a ∈ (glyphLines m.rotation).zipIdx,
      stage.Spells ⟨cell.col, cell.row + a.2⟩ a.1 k := by
  have hline (a : List Char × Nat) :=
    prints_put stage ⟨cell.col, cell.row + a.2⟩ (glyphStyle m.size) a.1
  exact Prints.flatMap hline (glyphLines m.rotation).zipIdx

theorem prints_bubble (stage : Stage) (cell : Cell) (b : Bubble) :
    Prints (drawBubble stage cell b) fun k => b.isVisible = true ∧
      stage.Spells (bubbleCell cell) (bubbleLine b) k :=
  (prints_put stage (bubbleCell cell) _ (bubbleLine b)).guard _

theorem prints_stage (stage : Stage) (m : Motion) (place : Point) :
    Prints (drawStage stage m place) fun k =>
      ((stage.Shows k.col k.row ∧ k.char = ' ') ∨
        ∃ a ∈ (glyphLines m.rotation).zipIdx,
          stage.Spells ⟨(stage.spriteCell place).col, (stage.spriteCell place).row + a.2⟩ a.1 k) ∨
      m.text.isVisible = true ∧
        stage.Spells (bubbleCell (stage.spriteCell place)) (bubbleLine m.text) k :=
  ((prints_blank stage).append (prints_glyph stage _ m)).append (prints_bubble stage _ m.text)

/-- Everything that is drawn on the stage stays on it. -/
theorem shows_of_mem_drawStage {c : Cursor} {k : Mark} {m : Motion} {place : Point}
    (h : k ∈ c.marks (drawStage stage m place)) : stage.Shows k.col k.row := by
  rcases (prints_stage stage m place c k).mp h with (hblank | ⟨_, _, hglyph⟩) | ⟨_, hbubble⟩
  · exact hblank.1
  · exact hglyph.1
  · exact hbubble.1

/-- Whether a drawing of a sprite at a place leaves a mark of its glyph in a terminal cell. -/
def GlyphAt (stage : Stage) (m : Motion) (place : Point) (col row : Nat) : Prop :=
  ∃ (c : Cursor) (k : Mark), k ∈ c.marks (drawGlyph stage (stage.spriteCell place) m) ∧
    k.col = col ∧ k.row = row

theorem length_of_mem_glyphLines {rotation : Float} {line : List Char}
    (h : line ∈ glyphLines rotation) : line.length = glyphCols := by
  simp only [glyphLines, List.mem_cons, List.not_mem_nil, or_false] at h
  rcases h with rfl | rfl | rfl <;> rfl

/-- The glyph fills the cells of its box that the stage shows. -/
theorem glyphAt_iff {m : Motion} {place : Point} {col row : Nat} :
    GlyphAt stage m place col row ↔
      stage.Shows col row ∧ stage.Boxes (stage.spriteCell place) col row := by
  have hprints := prints_glyph stage (stage.spriteCell place) m
  have hlines : (glyphLines m.rotation).length = glyphRows := rfl
  constructor
  · rintro ⟨c, k, hk, rfl, rfl⟩
    obtain ⟨⟨line, dy⟩, hmem, hshows, hrow, i, hi, hcol⟩ := (hprints c k).mp hk
    have hget := List.mem_zipIdx_iff_getElem?.mp hmem
    have hlength := length_of_mem_glyphLines (List.mem_of_getElem? hget)
    have hdy := hlines ▸ (List.getElem?_eq_some_iff.mp hget).1
    have hi := (List.getElem?_eq_some_iff.mp hi).1
    simp only at hrow hcol hi hdy hlength
    refine ⟨hshows, ?_⟩
    unfold Stage.Boxes
    omega
  · rintro ⟨hshows, hbox⟩
    unfold Stage.Boxes at hbox
    obtain ⟨dy, hrow⟩ := Int.eq_ofNat_of_zero_le
      (show 0 ≤ (row : Int) - stage.originRow - (stage.spriteCell place).row by omega)
    obtain ⟨i, hcol⟩ := Int.eq_ofNat_of_zero_le
      (show 0 ≤ (col : Int) - stage.originCol - (stage.spriteCell place).col by omega)
    have hdy : dy < (glyphLines m.rotation).length := by omega
    have hi : i < (glyphLines m.rotation)[dy].length := by
      rw [length_of_mem_glyphLines (List.getElem_mem hdy)]
      omega
    refine ⟨⟨0, 0⟩, ⟨col, row, (glyphLines m.rotation)[dy][i]⟩, (hprints _ _).mpr ?_, rfl, rfl⟩
    exact ⟨((glyphLines m.rotation)[dy], dy),
      List.mem_zipIdx_iff_getElem?.mpr (List.getElem?_eq_getElem hdy), hshows,
      by simp only; omega, i, List.getElem?_eq_getElem hi, by simp only; omega⟩

/-! ## Around the stage -/

def statusRow (p : Preview) : Nat := p.controls.stage.originRow + p.controls.stage.rows + 1

theorem prints_status (p : Preview) :
    Prints p.drawStatus fun k =>
      p.statusRow < p.terminal.rows ∧ Reads 0 p.statusRow p.statusText.toList k := by
  have htext := prints_cleared p.statusRow (some .dim) p.statusText
  have hdraw : p.drawStatus = if p.terminal.rows ≤ p.statusRow then []
      else [.moveTo 0 p.statusRow, .clearLine] ++ Draw.styled (some .dim) p.statusText := rfl
  rw [hdraw]
  split
  case isTrue hle => exact Prints.nil.congr fun k => iff_of_false id fun h => by omega
  case isFalse hlt => exact htext.congr fun k => (and_iff_right (Nat.lt_of_not_le hlt)).symm

def edge (stage : Stage) (left right : Char) : List Char :=
  left :: (List.replicate stage.cols '─' ++ [right])

theorem prints_border (stage : Stage) :
    Prints (drawBorder stage) fun k =>
      (Reads 0 (stage.originRow - 1) (edge stage '┌' '┐') k ∨
        Reads 0 (stage.originRow + stage.rows) (edge stage '└' '┘') k) ∨
      ∃ row ∈ List.range stage.rows, k = ⟨0, stage.originRow + row, '│'⟩ ∨
        k = ⟨stage.originCol + stage.cols, stage.originRow + row, '│'⟩ := by
  have htop := prints_text 0 (stage.originRow - 1)
    ("┌" ++ String.ofList (List.replicate stage.cols '─') ++ "┐")
  have hbottom := prints_text 0 (stage.originRow + stage.rows)
    ("└" ++ String.ofList (List.replicate stage.cols '─') ++ "┘")
  have hsides (row : Nat) := (prints_text 0 (stage.originRow + row) "│").append
    (prints_text (stage.originCol + stage.cols) (stage.originRow + row) "│")
  refine ((htop.append hbottom).append (Prints.flatMap hsides (List.range stage.rows))).congr ?_
  simp [edge, reads_singleton]

end Preview

end SpriteStage
