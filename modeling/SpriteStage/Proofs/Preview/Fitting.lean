import SpriteStage.CommandLine
import SpriteStage.Proofs.Preview.Showing

/-!
# What fits on the terminal

A preview is shown only on a terminal that has the size that the stage requires. So far as that size is
not cut to the largest terminal, every row of a full drawing is on the terminal, and so are all columns of
the border and of the stage, whatever the sprite says and wherever it goes. The required size does not
count the columns of the menu bar and of the status line: a full drawing fits exactly if these two are
not too long, which is `fits_by_width`.
-/

namespace SpriteStage

/-- What `play` made sure of when it shows a preview. -/
theorem Surroundings.preview_eq_ok {s : Surroundings} {path : String} {p : Preview}
    (h : s.preview path = .ok p) :
    p.controls.stage = Preview.stageOf s.settingsOf.stage ∧
      (Preview.requiredSize p.controls.stage).cols ≤ p.terminal.cols ∧
      (Preview.requiredSize p.controls.stage).rows ≤ p.terminal.rows := by
  unfold preview at h
  simp only [bind, Except.bind, pure, Except.pure] at h
  split at h
  · cases h
  · cases hload : s.load path with
    | error e =>
        rw [hload] at h
        cases h
    | ok program =>
        rw [hload] at h
        cases hterminal : s.terminal with
        | none =>
            rw [hterminal] at h
            cases h
        | some found =>
            rw [hterminal] at h
            dsimp only at h
            split at h
            case isTrue => cases h
            case isFalse hlarge =>
              cases h
              simp only [Bool.or_eq_true, decide_eq_true_eq, not_or, Nat.not_lt] at hlarge
              exact ⟨rfl, hlarge⟩

namespace Preview

variable {p : Preview}

/-- Whether everything that a full drawing prints is on the terminal. -/
def Fits (p : Preview) : Prop :=
  ∀ (c : Cursor) k, k ∈ c.marks p.renderFull.1 → k.col < p.terminal.cols ∧ k.row < p.terminal.rows

/-- Whether the stage of a preview starts right of the border and below it and the menu bar, on a
terminal with room for two columns and four rows more. -/
structure HasRoom (p : Preview) : Prop where
  originCol : p.controls.stage.originCol = 1
  originRow : p.controls.stage.originRow = 2
  cols : p.controls.stage.cols + 2 ≤ p.terminal.cols
  rows : p.controls.stage.rows + 4 ≤ p.terminal.rows

/-! ## The parts of a full drawing -/

/-- The marks of a full drawing are those of the border, of the stage, of the menu bar and of the status
line. -/
theorem mem_marks_full {c : Cursor} {k : Mark} : k ∈ c.marks p.renderFull.1 ↔
    (k ∈ c.marks (drawBorder p.controls.stage) ∨
      k ∈ c.marks (drawStage p.controls.stage p.latest p.drawn)) ∨
    Reads 0 0 (MenuBar.barText p.renderFull.2.menuItems) k ∨
      p.statusRow < p.terminal.rows ∧ Reads 0 p.statusRow p.renderFull.2.statusText.toList k := by
  have hborder := prints_border p.controls.stage
  have hstage := prints_stage p.controls.stage p.latest p.drawn
  have hchrome :=
    (MenuBar.prints_bar 0 p.renderFull.2.menuItems).append (prints_status p.renderFull.2)
  have hfull := ((hborder.cons_silent (d := .clearAll) ⟨rfl, rfl⟩).append hstage).append hchrome
  rw [hborder c k, hstage c k]
  exact hfull c k

theorem length_edge (stage : Stage) (left right : Char) :
    (edge stage left right).length = stage.cols + 2 := by
  simp [edge]

theorem HasRoom.border (hp : p.HasRoom) {c : Cursor} {k : Mark}
    (h : k ∈ c.marks (drawBorder p.controls.stage)) :
    k.col < p.terminal.cols ∧ k.row < p.terminal.rows := by
  obtain ⟨horiginCol, horiginRow, hcols, hrows⟩ := hp
  have hedge {row : Nat} {left right : Char}
      (hreads : Reads 0 row (edge p.controls.stage left right) k) : k.col < p.terminal.cols :=
    forall_reads_col_lt.mpr (length_edge p.controls.stage left right ▸ hcols) k hreads
  rcases (prints_border p.controls.stage c k).mp h with (htop | hbottom) | ⟨row, hlt, hside⟩
  · exact ⟨hedge htop, by have hrow := htop.1; omega⟩
  · exact ⟨hedge hbottom, by have hrow := hbottom.1; omega⟩
  · have hlt := List.mem_range.mp hlt
    rcases hside with rfl | rfl
    · exact ⟨by simp only; omega, by simp only; omega⟩
    · exact ⟨by simp only; omega, by simp only; omega⟩

theorem HasRoom.stage (hp : p.HasRoom) {c : Cursor} {k : Mark}
    (h : k ∈ c.marks (drawStage p.controls.stage p.latest p.drawn)) :
    k.col < p.terminal.cols ∧ k.row < p.terminal.rows := by
  obtain ⟨horiginCol, horiginRow, hcols, hrows⟩ := hp
  have hshows := shows_of_mem_drawStage h
  unfold Stage.Shows at hshows
  omega

/-! ## Whole drawings -/

/-- What is on the terminal of a full drawing. -/
structure FitsByWidth (p : Preview) : Prop where
  /-- The border and the stage with everything on it. -/
  stage : ∀ (c : Cursor) k,
    k ∈ c.marks (drawBorder p.controls.stage ++ drawStage p.controls.stage p.latest p.drawn) →
      k.col < p.terminal.cols ∧ k.row < p.terminal.rows
  /-- All its rows. -/
  rows : ∀ (c : Cursor) k, k ∈ c.marks p.renderFull.1 → k.row < p.terminal.rows
  /-- All of it, if neither the menu bar nor the status line is too long. -/
  fits_iff : p.Fits ↔
    (MenuBar.barText p.renderFull.2.menuItems).length ≤ p.terminal.cols ∧
      p.renderFull.2.statusText.toList.length ≤ p.terminal.cols

theorem HasRoom.fitsByWidth (hp : p.HasRoom) : p.FitsByWidth := by
  have hstatusRow : p.statusRow < p.terminal.rows := by
    have horiginRow := hp.originRow
    have hrows := hp.rows
    unfold statusRow
    omega
  refine ⟨fun c k hk => ?stage, fun c k hk => ?rows, ⟨fun hfits => ⟨?menu, ?status⟩, ?fits⟩⟩
  case stage =>
    rw [Cursor.marks_append, List.mem_append] at hk
    exact hk.elim hp.border hp.stage
  case rows =>
    rcases mem_marks_full.mp hk with (hborder | hstage) | hbar | ⟨hrow, hstatus⟩
    · exact (hp.border hborder).2
    · exact (hp.stage hstage).2
    · exact hbar.1 ▸ Nat.zero_lt_of_lt hstatusRow
    · exact hstatus.1 ▸ hrow
  case menu =>
    exact forall_reads_col_lt.mp fun k hk =>
      (hfits ⟨0, 0⟩ k (mem_marks_full.mpr (.inr (.inl hk)))).1
  case status =>
    exact forall_reads_col_lt.mp fun k hk =>
      (hfits ⟨0, 0⟩ k (mem_marks_full.mpr (.inr (.inr ⟨hstatusRow, hk⟩)))).1
  case fits =>
    rintro ⟨hmenu, hstatus⟩ c k hk
    rcases mem_marks_full.mp hk with (hborder | hstage) | hbar | ⟨hrow, hline⟩
    · exact hp.border hborder
    · exact hp.stage hstage
    · exact ⟨forall_reads_col_lt.mpr hmenu k hbar, hbar.1 ▸ Nat.zero_lt_of_lt hstatusRow⟩
    · exact ⟨forall_reads_col_lt.mpr hstatus k hline, hline.1 ▸ hrow⟩

/-- Once `play` shows a preview, only the menu bar and the status line can be too long for the terminal,
whatever happens to the sprite. -/
theorem fits_by_width {s : Surroundings} {path : String} (hs : List Happening)
    (hshown : s.preview path = .ok p)
    (hsize : requiredSize (stageOf s.settingsOf.stage) =
      ⟨(stageOf s.settingsOf.stage).cols + 2, (stageOf s.settingsOf.stage).rows + 4⟩) :
    (p.happens hs).FitsByWidth := by
  have hsetup := p.setup_happens hs
  have hcontrols : (p.happens hs).controls = p.controls := congrArg Prod.fst hsetup
  have hterminal : (p.happens hs).terminal = p.terminal := congrArg Prod.snd hsetup
  obtain ⟨hstage, hcols, hrows⟩ := Surroundings.preview_eq_ok hshown
  rw [hstage, hsize] at hcols hrows
  refine HasRoom.fitsByWidth ⟨?_, ?_, ?_, ?_⟩
  · rw [hcontrols, hstage]
    rfl
  · rw [hcontrols, hstage]
    rfl
  · rw [hcontrols, hterminal, hstage]
    exact hcols
  · rw [hcontrols, hterminal, hstage]
    exact hrows

/-- An empty program with the default settings, on a terminal of just the required size. -/
def justLargeEnough : Surroundings :=
  { program := .ok ⟨#[91, 93]⟩, settings := none, seed := 0, log := none, terminal := some ⟨52, 29⟩ }

/-- It is shown, with a menu bar of seventy characters. -/
theorem preview_justLargeEnough : ∃ p, justLargeEnough.preview "p" = .ok p ∧
    (MenuBar.barText p.renderFull.2.menuItems).length = 70 ∧ p.terminal.cols = 52 := by
  have hmenu : ((justLargeEnough.preview "p").toOption.map fun p =>
      ((MenuBar.barText p.renderFull.2.menuItems).length, p.terminal.cols)) = some (70, 52) := by
    decide +kernel
  cases h : justLargeEnough.preview "p" with
  | error e =>
      rw [h] at hmenu
      cases hmenu
  | ok p =>
      rw [h] at hmenu
      exact ⟨p, rfl, Prod.mk.inj (Option.some.inj hmenu)⟩

theorem fits_by_width_justLargeEnough : ∃ p, justLargeEnough.preview "p" = .ok p ∧
    requiredSize (stageOf justLargeEnough.settingsOf.stage) =
      ⟨(stageOf justLargeEnough.settingsOf.stage).cols + 2,
        (stageOf justLargeEnough.settingsOf.stage).rows + 4⟩ ∧
    (p.happens []).FitsByWidth := by
  obtain ⟨p, hshown, -⟩ := preview_justLargeEnough
  exact ⟨p, hshown, by decide +kernel, fits_by_width [] hshown (by decide +kernel)⟩

/-- The required size does not make a preview fit: it takes no account of the menu bar. -/
theorem menu_too_long : ¬ ∀ (s : Surroundings) (path : String) (p : Preview) (hs : List Happening),
    s.preview path = .ok p → (p.happens hs).Fits := by
  intro h
  obtain ⟨p, hshown, hmenu, hcols⟩ := preview_justLargeEnough
  have hfits := h justLargeEnough "p" p [] hshown
  have hlength : (MenuBar.barText p.renderFull.2.menuItems).length ≤ p.terminal.cols :=
    forall_reads_col_lt.mp fun k hk =>
      (hfits ⟨0, 0⟩ k (mem_marks_full.mpr (.inr (.inl hk)))).1
  omega

end Preview

end SpriteStage
