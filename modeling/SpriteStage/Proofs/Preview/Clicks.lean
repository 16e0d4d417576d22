import SpriteStage.Proofs.Preview.Showing

/-!
# Clicks and the glyph

A press on the stage counts as a click on the sprite by the place at which the sprite is; the glyph is
drawn at the place at which the preview draws it. A sprite that does not glide is drawn where it is, so
that clicks meet its glyph. A glyph that is on its way to another cell is missed: clicks meet the cells to
which it goes. `clicks_by_place` has both.
-/

namespace SpriteStage

/-- Whether the whole box of a glyph at a cell is on the stage. -/
def Stage.Holds (s : Stage) (cell : Cell) : Prop :=
  (0 ≤ cell.col ∧ cell.col + glyphCols ≤ s.cols) ∧ 0 ≤ cell.row ∧ cell.row + glyphRows ≤ s.rows

namespace Preview

variable {p : Preview}

def ClickedAt (p : Preview) (col row : Nat) : Prop :=
  (p.controls.respond p.sequencer (.mouse .leftPressed col row)).1 = .clickSprite

instance (p : Preview) (col row : Nat) : Decidable (p.ClickedAt col row) :=
  inferInstanceAs (Decidable (_ = _))

/-- Whether on the stage clicks on the sprite are those on the glyph that is shown. -/
def ClicksMeet (p : Preview) : Prop :=
  ∀ col row, p.controls.stage.Shows col row →
    (p.ClickedAt col row ↔ GlyphAt p.controls.stage p.latest p.drawn col row)

theorem clickedAt_iff {col row : Nat} : p.ClickedAt col row ↔
    p.controls.stage.Boxes (p.controls.stage.spriteCell p.sequencer.store.motion.position)
      col row := by
  rw [← Stage.hits_iff]
  show (if p.controls.stage.hits col row p.sequencer.store.motion.position then Command.clickSprite
    else .proceed) = .clickSprite ↔ _
  cases p.controls.stage.hits col row p.sequencer.store.motion.position <;> decide

/-- Clicks meet a glyph that is drawn in the cell of the sprite. -/
theorem clicksMeet_of_eq
    (h : p.controls.stage.spriteCell p.sequencer.store.motion.position =
      p.controls.stage.spriteCell p.drawn) : p.ClicksMeet := by
  intro col row hshows
  rw [clickedAt_iff, glyphAt_iff, h, and_iff_right hshows]

/-- They miss some of a glyph that is drawn in another cell, unless the stage cuts it off: opposite
corners of one box are in the other one only if the boxes are the same. -/
theorem eq_of_clicksMeet (hmeet : p.ClicksMeet)
    (hholds : p.controls.stage.Holds (p.controls.stage.spriteCell p.drawn)) :
    p.controls.stage.spriteCell p.sequencer.store.motion.position =
      p.controls.stage.spriteCell p.drawn := by
  have hcell (col row : Nat) (hshows : p.controls.stage.Shows col row)
      (hbox : p.controls.stage.Boxes (p.controls.stage.spriteCell p.drawn) col row) :=
    clickedAt_iff.mp ((hmeet col row hshows).mpr (glyphAt_iff.mpr ⟨hshows, hbox⟩))
  generalize p.controls.stage.spriteCell p.sequencer.store.motion.position = there at hcell ⊢
  generalize p.controls.stage.spriteCell p.drawn = here at hcell hholds ⊢
  obtain ⟨col, row⟩ := here
  obtain ⟨col', row'⟩ := there
  unfold Stage.Holds at hholds
  unfold Stage.Shows Stage.Boxes at hcell
  simp only [glyphCols, glyphRows] at hcell hholds
  obtain ⟨x, rfl⟩ := Int.eq_ofNat_of_zero_le hholds.1.1
  obtain ⟨y, rfl⟩ := Int.eq_ofNat_of_zero_le hholds.2.1
  have hfirst := hcell (p.controls.stage.originCol + x) (p.controls.stage.originRow + y)
    (by omega) (by omega)
  have hlast := hcell (p.controls.stage.originCol + x + 4) (p.controls.stage.originRow + y + 2)
    (by omega) (by omega)
  rw [Cell.mk.injEq]
  omega

/-- How clicks go with what was drawn. -/
structure ClicksByPlace (p : Preview) (out : List Draw) : Prop where
  /-- The last frame shows the sprite that was seen last, at the place where the preview draws it. -/
  frame : EndsWith p.controls.stage p.latest p.drawn out
  /-- The cells of the stage in which that frame placed the glyph. -/
  placed : ∀ col row, GlyphAt p.controls.stage p.latest p.drawn col row ↔
    p.controls.stage.Shows col row ∧
      p.controls.stage.Boxes (p.controls.stage.spriteCell p.drawn) col row
  /-- The cells in which a press is a click on the sprite. -/
  clicked : ∀ col row, p.ClickedAt col row ↔
    p.controls.stage.Boxes (p.controls.stage.spriteCell p.latest.position) col row
  /-- When the sprite does not glide, these are the same cells of the stage. -/
  resting : p.latest.animation = none → p.ClicksMeet
  /-- Nor does a glide matter while the glyph is drawn in the cell to which it goes. -/
  sameCell : p.controls.stage.spriteCell p.latest.position = p.controls.stage.spriteCell p.drawn →
    p.ClicksMeet
  /-- While the whole glyph is drawn in another cell, clicks miss some of it. -/
  otherCell : p.controls.stage.Holds (p.controls.stage.spriteCell p.drawn) →
    p.controls.stage.spriteCell p.latest.position ≠ p.controls.stage.spriteCell p.drawn →
      ¬ p.ClicksMeet

/-- Once the last change of the sprite was taken over, clicks meet the glyph of a sprite that does not
glide. -/
theorem clicks_by_place {sequencer : Sequencer} {settings : Settings} {terminal : TerminalSize}
    {hs : List Happening}
    (hseen : ((ofSequencer sequencer settings terminal).session hs).latest =
      ((ofSequencer sequencer settings terminal).session hs).sequencer.store.motion) :
    ((ofSequencer sequencer settings terminal).session hs).ClicksByPlace
      ((ofSequencer sequencer settings terminal).output hs) := by
  have hcontrols : ((ofSequencer sequencer settings terminal).session hs).controls.stage =
      stageOf settings.stage :=
    congrArg (fun setup => setup.1.stage) (setup_session sequencer settings terminal hs)
  have hframe := endsWith_session sequencer settings terminal hs
  have hrests := rests_session sequencer settings terminal hs
  generalize (ofSequencer sequencer settings terminal).session hs = p at *
  refine ⟨hcontrols ▸ hframe, fun _ _ => glyphAt_iff, fun _ _ => hseen ▸ clickedAt_iff, ?_, ?_, ?_⟩
  · intro hstill
    exact clicksMeet_of_eq (by rw [(hrests hstill).2, hseen])
  · exact fun hsame => clicksMeet_of_eq (hseen ▸ hsame)
  · exact fun hholds hother hmeet => hother (hseen ▸ eq_of_clicksMeet hmeet hholds)

/-- The sprite goes to the right at once. -/
def jumping : Sequencer :=
  (Sequencer.threeActions 10).moves
    [.call (.replaceProgram ⟨[⟨.hat .flagClicked, [.goTo 16.0 0.0]⟩]⟩), .call .run, .turn 0 false,
      .pass 10, .turn 0 false]

def seesJumping : List Happening := [.changes jumping] ++ [.observes 10000]

theorem clicks_by_place_jumping :
    ((ofSequencer (Sequencer.threeActions 10) {} ⟨60, 30⟩).session seesJumping).latest =
      ((ofSequencer (Sequencer.threeActions 10) {} ⟨60, 30⟩).session
        seesJumping).sequencer.store.motion ∧
    ((ofSequencer (Sequencer.threeActions 10) {} ⟨60, 30⟩).session seesJumping).ClicksByPlace
      ((ofSequencer (Sequencer.threeActions 10) {} ⟨60, 30⟩).output seesJumping) ∧
    ((ofSequencer (Sequencer.threeActions 10) {} ⟨60, 30⟩).session seesJumping).ClickedAt 3 2 ∧
    ¬ ((ofSequencer (Sequencer.threeActions 10) {} ⟨60, 30⟩).session seesJumping).ClickedAt 2 2 :=
  ⟨latest_observes _ _ _, clicks_by_place (latest_observes _ _ _), by decide +kernel,
    by decide +kernel⟩

/-- The sprite glides to the right for a second; its glyph is still where it was. A press on the first
of its cells is none on the sprite. -/
theorem clicks_miss_gliding : ¬ ∀ (sequencer : Sequencer) (settings : Settings)
    (terminal : TerminalSize) (hs : List Happening) (now : Int), sequencer.Reachable →
      (∀ s, .changes s ∈ hs → s.Reachable) →
        ((ofSequencer sequencer settings terminal).session (hs ++ [.observes now])).ClicksMeet := by
  intro h
  have hreachable : glidingThere.Reachable :=
    (Sequencer.Reachable.built (Sequencer.threeActions 10)).moves _
  have hmeet := h (Sequencer.threeActions 10) {} ⟨60, 30⟩ [.changes glidingThere] 10000
    (Sequencer.Reachable.built (Sequencer.threeActions 10))
    (by
      intro s hs
      obtain rfl := Happening.changes.inj (List.mem_singleton.mp hs)
      exact hreachable)
  have hclick := (hmeet 1 2 (by decide +kernel)).mpr
    (glyphAt_iff.mpr ⟨by decide +kernel, by decide +kernel⟩)
  revert hclick
  decide +kernel

end Preview

end SpriteStage
