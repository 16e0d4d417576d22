import SpriteStage.Proofs.Preview.Painting

/-!
# Hits on the glyph

The hit test goes by the box of the glyph, the drawing by what the stage shows of that box. On the stage
they agree. Where the stage cuts the glyph off, on the border, on a bar or beyond them, the hit test still
answers by the box. `hits_by_box` has both, and says for which places of the glyph no cell of the
terminal makes a difference.
-/

namespace SpriteStage

namespace Stage

variable {s : Stage} {cell : Cell}

/-- Whether the stage cuts off nothing that would be on the terminal: the box of the glyph ends before
the first column or the first row, or the stage shows what of it does not. -/
def SparesBox (s : Stage) (cell : Cell) : Prop :=
  (s.originCol + cell.col + glyphCols ≤ 0 ∨ s.originRow + cell.row + glyphRows ≤ 0) ∨
    ((s.originCol = 0 ∨ 0 ≤ cell.col) ∧ cell.col + glyphCols ≤ s.cols) ∧
      (s.originRow = 0 ∨ 0 ≤ cell.row) ∧ cell.row + glyphRows ≤ s.rows

theorem sparesBox_iff :
    s.SparesBox cell ↔ ∀ col row, s.Boxes cell col row → s.Shows col row := by
  unfold SparesBox Boxes Shows
  constructor
  · intro hspares col row hbox
    omega
  · intro hshown
    by_cases hcols : s.originCol + cell.col + glyphCols ≤ 0
    · exact .inl (.inl hcols)
    by_cases hrows : s.originRow + cell.row + glyphRows ≤ 0
    · exact .inl (.inr hrows)
    -- the first and the last cell of the box that are on the terminal
    obtain ⟨left, hleft⟩ := Int.eq_ofNat_of_zero_le (Int.le_max_left 0 (s.originCol + cell.col))
    obtain ⟨top, htop⟩ := Int.eq_ofNat_of_zero_le (Int.le_max_left 0 (s.originRow + cell.row))
    obtain ⟨right, hright⟩ := Int.eq_ofNat_of_zero_le
      (show 0 ≤ s.originCol + cell.col + glyphCols - 1 by omega)
    obtain ⟨bottom, hbottom⟩ := Int.eq_ofNat_of_zero_le
      (show 0 ≤ s.originRow + cell.row + glyphRows - 1 by omega)
    have hfirst := hshown left top (by simp only [glyphCols, glyphRows] at *; omega)
    have hlast := hshown right bottom (by simp only [glyphCols, glyphRows] at *; omega)
    omega

end Stage

namespace Preview

/-- A sprite that is drawn where it is. The hit test meets the box of its glyph; on the stage that is
where the glyph is drawn; and it meets no other cell of the terminal just if the stage cuts off nothing
that would be there. -/
theorem hits_by_box (stage : Stage) (m : Motion) :
    (∀ col row, stage.hits col row m.position = true ↔
      stage.Boxes (stage.spriteCell m.position) col row) ∧
    (∀ col row, GlyphAt stage m m.position col row ↔
      stage.hits col row m.position = true ∧ stage.Shows col row) ∧
    ((∀ col row, stage.hits col row m.position = true ↔ GlyphAt stage m m.position col row) ↔
      stage.SparesBox (stage.spriteCell m.position)) := by
  have hhit (col row : Nat) := stage.hits_iff col row m.position
  have hdrawn (col row : Nat) : GlyphAt stage m m.position col row ↔
      stage.hits col row m.position = true ∧ stage.Shows col row := by
    rw [glyphAt_iff, hhit, and_comm]
  refine ⟨hhit, hdrawn, ?_⟩
  calc
    _ ↔ ∀ col row, stage.hits col row m.position = true → stage.Shows col row := by
      simp only [hdrawn, iff_self_and]
    _ ↔ ∀ col row, stage.Boxes (stage.spriteCell m.position) col row → stage.Shows col row := by
      simp only [hhit]
    _ ↔ stage.SparesBox (stage.spriteCell m.position) := Stage.sparesBox_iff.symm

def leaning : Motion := { Motion.initial with position := ⟨-8.0, 0.0⟩ }

/-- The first column of its glyph falls on the border. Nothing of the glyph is drawn there, and the hit
test meets it. -/
theorem hits_border : ¬ ∀ (stage : Stage) (m : Motion) (col row : Nat),
    stage.hits col row m.position = true ↔ GlyphAt stage m m.position col row := by
  intro h
  have hhit : (stageOf {}).hits 0 2 leaning.position = true := by decide +kernel
  have hshows := (glyphAt_iff.mp ((h (stageOf {}) leaning 0 2).mp hhit)).1
  revert hshows
  decide +kernel

end Preview

end SpriteStage
