import SpriteStage.Proofs.Preview.Painting
import SpriteStage.Proofs.Preview.Tweens

/-!
# What the stage shows

The stage shows the last frame that was drawn: what is drawn after it leaves the stage alone. From the
opening on the last frame is the sprite that was seen last, at the place where the preview draws it:
`endsWith_session`. That place is the sprite's own unless it glides: `rests_session`.
-/

namespace SpriteStage.Preview

variable {p : Preview}

/-! ## What is drawn from the opening on -/

def draws (p : Preview) : Happening → List Draw
  | .changes _ => []
  | .observes now => (p.observe now).1
  | .frames now => (p.frame now).1
  | .reacts e => (p.react e).drawing

def drawsAll (p : Preview) : List Happening → List Draw
  | [] => []
  | h :: hs => p.draws h ++ drawsAll (p.happen h) hs

def session (p : Preview) (hs : List Happening) : Preview := p.opening.2.happens hs

def output (p : Preview) (hs : List Happening) : List Draw := p.opening.1 ++ p.opening.2.drawsAll hs

/-! ## The last frame -/

def Spares (stage : Stage) (ds : List Draw) : Prop :=
  ∀ (c : Cursor) k, k ∈ c.marks ds → ¬ stage.Shows k.col k.row

/-- Whether the last frame of a drawing shows a sprite at a place: what follows it leaves the stage
alone. -/
def EndsWith (stage : Stage) (m : Motion) (place : Point) (ds : List Draw) : Prop :=
  ∃ before after, ds = before ++ drawStage stage m place ++ after ∧ Spares stage after

theorem spares_nil (stage : Stage) : Spares stage [] := fun _ _ h => absurd h List.not_mem_nil

theorem Spares.append {stage : Stage} {ds es : List Draw} (hd : Spares stage ds)
    (he : Spares stage es) : Spares stage (ds ++ es) := by
  intro c k hk
  rw [Cursor.marks_append, List.mem_append] at hk
  exact hk.elim (hd c k) (he _ k)

/-- The menu bar is above the stage, the status line below it. -/
theorem spares_chrome (h : 0 < p.controls.stage.originRow) :
    Spares p.controls.stage p.renderChrome.1 := by
  intro c k hk hshows
  have hrows := hshows.2
  rcases (((MenuBar.prints_bar 0 _).append (prints_status _)) c k).mp hk with hbar | ⟨_, hstatus⟩
  · have hrow : k.row = 0 := hbar.1
    omega
  · have hrow : k.row = p.controls.stage.originRow + p.controls.stage.rows + 1 := hstatus.1
    omega

section
variable {stage : Stage} {m : Motion} {place : Point} {ds es : List Draw}

theorem EndsWith.append (h : EndsWith stage m place ds) (hes : Spares stage es) :
    EndsWith stage m place (ds ++ es) := by
  obtain ⟨before, after, rfl, hafter⟩ := h
  exact ⟨before, after ++ es, List.append_assoc _ _ _, hafter.append hes⟩

theorem EndsWith.behind (h : EndsWith stage m place es) (ds : List Draw) :
    EndsWith stage m place (ds ++ es) := by
  obtain ⟨before, after, rfl, hafter⟩ := h
  exact ⟨ds ++ before, after, by simp only [List.append_assoc], hafter⟩

end

/-! ## What each happening draws -/

def looked (p : Preview) : Preview :=
  { p with latest := p.sequencer.store.motion, observer := (p.observer.look p.sequencer.store).2 }

theorem setTarget_eq (p : Preview) (now : Int) :
    ∃ tween drawn, p.setTarget now = { p with tween, drawn } := by
  unfold setTarget
  cases p.latest.animation with
  | none => exact ⟨_, _, rfl⟩
  | some animation =>
      dsimp only
      split <;> split <;> exact ⟨_, _, rfl⟩

theorem moveBy_eq (sample : Tween → Int → Point × Bool) (p : Preview) (now : Int) :
    ∃ tween drawn, p.moveBy sample now = { p with tween, drawn } := by
  unfold moveBy
  cases p.tween with
  | none => exact ⟨_, _, rfl⟩
  | some t => exact ⟨_, _, rfl⟩

theorem advance_eq (p : Preview) (now : Int) :
    ∃ tween drawn, p.advance now = { p with tween, drawn } := by
  rw [advance_eq_moveBy]
  exact moveBy_eq Tween.sample p now

theorem latest_setTarget (p : Preview) (now : Int) : (p.setTarget now).latest = p.latest := by
  obtain ⟨_, _, h⟩ := p.setTarget_eq now
  rw [h]

theorem latest_advance (p : Preview) (now : Int) : (p.advance now).latest = p.latest := by
  obtain ⟨_, _, h⟩ := p.advance_eq now
  rw [h]

def chromeWhen (p : Preview) (isDue : Bool) : List Draw × Preview :=
  if isDue then p.renderChrome else ([], p)

theorem chromeWhen_eq (p : Preview) (isDue : Bool) :
    ∃ shownPlaying, (p.chromeWhen isDue).2 = { p with shownPlaying } := by
  cases isDue with
  | false => exact ⟨_, rfl⟩
  | true => exact ⟨_, rfl⟩

/-- A frame moves what is drawn if a tween is under way, and draws the menu and the status line if that
is due. -/
theorem frame_cases {motive : Preview → List Draw → Prop} (now : Int)
    (still : p.tween = none → ∀ isDue, motive (p.chromeWhen isDue).2 (p.chromeWhen isDue).1)
    (moving : p.tween ≠ none → ∀ isDue,
      motive ((p.advance now).renderStage.2.chromeWhen isDue).2
        ((p.advance now).renderStage.1 ++ ((p.advance now).renderStage.2.chromeWhen isDue).1)) :
    motive (p.frame now).2 (p.frame now).1 := by
  unfold frame
  cases htween : p.tween with
  | none => exact still htween _
  | some t => exact moving (htween ▸ nofun) _

def setup (p : Preview) : Controls × TerminalSize := (p.controls, p.terminal)

theorem setup_setTarget (p : Preview) (now : Int) : (p.setTarget now).setup = p.setup := by
  obtain ⟨_, _, h⟩ := p.setTarget_eq now
  rw [h]
  rfl

theorem setup_advance (p : Preview) (now : Int) : (p.advance now).setup = p.setup := by
  obtain ⟨_, _, h⟩ := p.advance_eq now
  rw [h]
  rfl

theorem setup_chromeWhen (p : Preview) (isDue : Bool) : (p.chromeWhen isDue).2.setup = p.setup := by
  obtain ⟨_, h⟩ := p.chromeWhen_eq isDue
  rw [h]
  rfl

theorem setup_happen (p : Preview) (h : Happening) : (p.happen h).setup = p.setup := by
  cases h with
  | changes s => rfl
  | observes now => exact setup_setTarget p.looked now
  | frames now =>
      exact frame_cases (motive := fun q _ => q.setup = p.setup) now (fun _ => p.setup_chromeWhen)
        fun _ isDue => (setup_chromeWhen _ isDue).trans (p.setup_advance now)
  | reacts e =>
      exact react_cases (motive := fun q _ => q.setup = p.setup) e (fun _ => rfl) (fun _ => rfl)
        fun _ _ _ => rfl

theorem setup_happens (p : Preview) (hs : List Happening) : (p.happens hs).setup = p.setup := by
  induction hs generalizing p with
  | nil => rfl
  | cons h hs ih => exact (ih _).trans (p.setup_happen h)

/-- What goes on on the stage while something is drawn: either the preview shows what it showed and
the stage is left alone, or the last frame shows what the preview is to show now. -/
def Updates (p q : Preview) (ds : List Draw) : Prop :=
  (q.latest = p.latest ∧ q.drawn = p.drawn ∧ Spares p.controls.stage ds) ∨
    EndsWith q.controls.stage q.latest q.drawn ds

theorem spares_chromeWhen (h : 0 < p.controls.stage.originRow) (isDue : Bool) :
    Spares p.controls.stage (p.chromeWhen isDue).1 := by
  cases isDue with
  | false => exact spares_nil _
  | true => exact spares_chrome h

theorem updates_chromeWhen (h : 0 < p.controls.stage.originRow) (isDue : Bool) :
    Updates p (p.chromeWhen isDue).2 (p.chromeWhen isDue).1 := by
  obtain ⟨_, hchrome⟩ := p.chromeWhen_eq isDue
  refine .inl ⟨?_, ?_, spares_chromeWhen h isDue⟩
  · rw [hchrome]
  · rw [hchrome]

/-- A frame, perhaps with the menu and the status line. -/
theorem updates_stage (h : 0 < p.controls.stage.originRow) (p' : Preview) (isDue : Bool) :
    Updates p' (p.renderStage.2.chromeWhen isDue).2
      (p.renderStage.1 ++ (p.renderStage.2.chromeWhen isDue).1) := by
  obtain ⟨_, hchrome⟩ := p.renderStage.2.chromeWhen_eq isDue
  have hspares : Spares p.controls.stage (p.renderStage.2.chromeWhen isDue).1 :=
    spares_chromeWhen (p := p.renderStage.2) h isDue
  rw [Updates, hchrome]
  exact .inr ⟨[], _, rfl, hspares⟩

theorem endsWith_full (h : 0 < p.controls.stage.originRow) :
    EndsWith p.controls.stage p.latest p.drawn p.renderFull.1 := by
  have hchrome : Spares p.controls.stage p.renderStage.2.renderChrome.1 := spares_chrome h
  exact ⟨[.clearAll] ++ drawBorder p.controls.stage, _, rfl, hchrome⟩

theorem updates_happen (hrow : 0 < p.controls.stage.originRow) (h : Happening) :
    Updates p (p.happen h) (p.draws h) := by
  cases h with
  | changes s => exact .inl ⟨rfl, rfl, spares_nil _⟩
  | observes now =>
      have hcontrols : (p.looked.setTarget now).controls = p.controls :=
        congrArg Prod.fst (p.looked.setup_setTarget now)
      exact updates_stage (hcontrols.symm ▸ hrow) p true
  | frames now =>
      have hcontrols : (p.advance now).controls = p.controls :=
        congrArg Prod.fst (p.setup_advance now)
      exact frame_cases (motive := p.Updates) now (fun _ => updates_chromeWhen hrow)
        fun _ isDue => updates_stage (hcontrols.symm ▸ hrow) p isDue
  | reacts e =>
      exact react_cases (motive := p.Updates) e (fun _ => .inl ⟨rfl, rfl, spares_nil _⟩)
        (fun s => .inl ⟨rfl, rfl, spares_chrome (p := { p with sequencer := s }) hrow⟩)
        fun s fullscreen ds => .inr
          (.behind (endsWith_full (p := { p with sequencer := s, fullscreen }) hrow) ds)

/-- The last frame shows the sprite that was seen last, where the preview draws it. -/
theorem endsWith_happens (hrow : 0 < p.controls.stage.originRow) {out : List Draw}
    (hout : EndsWith p.controls.stage p.latest p.drawn out) (hs : List Happening) :
    EndsWith p.controls.stage (p.happens hs).latest (p.happens hs).drawn (out ++ p.drawsAll hs) := by
  induction hs generalizing p out with
  | nil =>
      rw [drawsAll, List.append_nil]
      exact hout
  | cons h hs ih =>
      have hcontrols : (p.happen h).controls = p.controls := congrArg Prod.fst (p.setup_happen h)
      have hstep : EndsWith p.controls.stage (p.happen h).latest (p.happen h).drawn
          (out ++ p.draws h) := by
        rcases updates_happen hrow h with ⟨hlatest, hdrawn, hspares⟩ | hends
        · rw [hlatest, hdrawn]
          exact hout.append hspares
        · rw [hcontrols] at hends
          exact hends.behind out
      have hrest := ih (p := p.happen h) (hcontrols.symm ▸ hrow) (hcontrols.symm ▸ hstep)
      rw [hcontrols] at hrest
      rw [drawsAll, ← List.append_assoc]
      exact hrest

/-! ## A sprite at rest -/

/-- Whether a sprite that does not glide is drawn where it is, with nothing under way. -/
def Rests (p : Preview) : Prop :=
  p.latest.animation = none → p.tween = none ∧ p.drawn = p.latest.position

theorem rests_setTarget (p : Preview) (now : Int) : (p.setTarget now).Rests := by
  intro hnone
  rw [latest_setTarget] at hnone ⊢
  unfold setTarget
  rw [hnone]
  exact ⟨rfl, rfl⟩

theorem Rests.chromeWhen (hp : p.Rests) (isDue : Bool) : (p.chromeWhen isDue).2.Rests := by
  obtain ⟨_, h⟩ := p.chromeWhen_eq isDue
  rw [h]
  exact hp

theorem Rests.happen (hp : p.Rests) (h : Happening) : (p.happen h).Rests := by
  cases h with
  | changes s => exact hp
  | observes now => exact rests_setTarget p.looked now
  | frames now =>
      refine frame_cases (motive := fun q _ => q.Rests) now (fun _ => hp.chromeWhen)
        fun hmoving => Rests.chromeWhen fun hnone => ?_
      -- a tween under way means that the sprite that was seen last glides
      have hnone : p.latest.animation = none := p.latest_advance now ▸ hnone
      exact absurd (hp hnone).1 hmoving
  | reacts e =>
      exact react_cases (motive := fun q _ => q.Rests) e (fun _ => hp) (fun _ => hp) fun _ _ _ => hp

theorem Rests.happens (hp : p.Rests) (hs : List Happening) : (p.happens hs).Rests := by
  induction hs generalizing p with
  | nil => exact hp
  | cons h hs ih => exact ih (hp.happen h)

/-! ## A whole session -/

theorem happens_append (p : Preview) (hs hs' : List Happening) :
    p.happens (hs ++ hs') = (p.happens hs).happens hs' := List.foldl_append

/-- Looking at the sprite takes over its last change. -/
theorem latest_observes (p : Preview) (hs : List Happening) (now : Int) :
    (p.session (hs ++ [.observes now])).latest =
      (p.session (hs ++ [.observes now])).sequencer.store.motion := by
  have hlooked (q : Preview) :
      (q.observe now).2.latest = (q.observe now).2.sequencer.store.motion := by
    obtain ⟨_, _, htarget⟩ := q.looked.setTarget_eq now
    show (q.looked.setTarget now).latest = (q.looked.setTarget now).sequencer.store.motion
    rw [htarget]
    rfl
  unfold session
  rw [happens_append]
  exact hlooked _

section
variable (sequencer : Sequencer) (settings : Settings) (terminal : TerminalSize)
  (hs : List Happening)

theorem setup_session : ((ofSequencer sequencer settings terminal).session hs).setup =
    (⟨settings.keyBindings, stageOf settings.stage⟩, terminal) :=
  setup_happens _ hs

theorem endsWith_session : EndsWith (stageOf settings.stage)
    ((ofSequencer sequencer settings terminal).session hs).latest
    ((ofSequencer sequencer settings terminal).session hs).drawn
    ((ofSequencer sequencer settings terminal).output hs) := by
  have hrow : 0 < (stageOf settings.stage).originRow := Nat.succ_pos 1
  have hfull := endsWith_full (p := ofSequencer sequencer settings terminal) hrow
  exact endsWith_happens (p := (ofSequencer sequencer settings terminal).opening.2) hrow
    (hfull.behind _) hs

theorem rests_session : ((ofSequencer sequencer settings terminal).session hs).Rests :=
  Rests.happens (fun _ => ⟨rfl, rfl⟩) hs

end

end SpriteStage.Preview
