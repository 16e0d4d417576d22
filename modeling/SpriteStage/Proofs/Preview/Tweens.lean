import SpriteStage.Preview.Play
import SpriteStage.Sequencer.Schedule

/-!
# Where tweens lead

A preview aims at its sprite: a tween leads to the place of the sprite that was seen last, and without
a tween the sprite is drawn there. Frames and reactions keep the aim, and taking over the sprite sets
it anew: `aims_observe`. It misses in one case. When the sprite glides to just the place at which it is
drawn while a tween to another place is under way, that tween goes on, and the sprite ends up drawn
where it is not.
-/

namespace SpriteStage

/-- A number is equal to itself. -/
theorem beq_self_of_isNumber {x : Float} (h : x.isNaN = false) : (x == x) = true := by
  show x.toModel.unpack.beq x.toModel.unpack = true
  have h : x.toModel.unpack.isNaN = false := h
  generalize x.toModel.unpack = u at h ⊢
  unfold Float.Model.UnpackedFloat.beq
  cases u with
  | notANumber => cases h
  | infinity sign => cases sign <;> rfl
  | zero sign => rfl
  | finite sign mantissa exponent pos =>
      have hsame : (compare exponent exponent).then (compare mantissa mantissa) = .eq := by
        simp only [Std.ReflOrd.compare_self, Ordering.then_self]
      cases sign with
      | positive => exact congrArg (fun o => some o == some .eq) hsame
      | negative => exact congrArg (fun o => some o.swap == some .eq) hsame

namespace Point

def isNumber (p : Point) : Bool := !p.x.isNaN && !p.y.isNaN

theorem beq_self {p : Point} (h : p.isNumber = true) : (p == p) = true := by
  unfold isNumber at h
  rw [Bool.and_eq_true, Bool.not_eq_true', Bool.not_eq_true'] at h
  show (p.x == p.x && p.y == p.y) = true
  rw [beq_self_of_isNumber h.1, beq_self_of_isNumber h.2]
  rfl

end Point

/-- A tween that arrived is where it led. -/
theorem Tween.eq_target_of_sample {t : Tween} {now : Int} {place : Point}
    (h : t.sample now = (place, true)) : place = t.target := by
  have hcases {arrived : Bool} {between : Point} :
      (if arrived then (t.target, true) else (between, false)) = (place, true) →
        place = t.target := by
    cases arrived with
    | true => exact fun h => (congrArg Prod.fst h).symm
    | false => exact nofun
  exact hcases h

namespace Preview

variable {p : Preview}

/-- Whether the tween leads to the place of the sprite that was seen last, or the sprite is drawn there
without a tween. -/
def aims (p : Preview) : Bool :=
  match p.tween with
  | some t => t.target == p.latest.position
  | none => p.drawn == p.latest.position

/-- Whether the sprite that is to be taken over glides to the place at which it is drawn, while a tween
to another place is under way. -/
def turnsBack (p : Preview) : Bool :=
  let m := p.sequencer.store.motion
  m.animation.isSome && p.drawn == m.position && p.tween.any fun t => t.target != m.position

/-! ## What each happening does to the aim -/

/-- A preview that has drawn nothing yet aims at its sprite. -/
theorem aims_ofSequencer {sequencer : Sequencer}
    (h : sequencer.store.motion.position.isNumber = true) (settings : Settings)
    (terminal : TerminalSize) : (ofSequencer sequencer settings terminal).aims = true :=
  Point.beq_self h

theorem aims_of_some {t : Tween} (h : p.tween = some t) :
    p.aims = (t.target == p.latest.position) := by
  unfold aims
  rw [h]

theorem aims_of_none (h : p.tween = none) : p.aims = (p.drawn == p.latest.position) := by
  unfold aims
  rw [h]

/-- Of the four things that a new target depends on, only one combination keeps a tween to another
place. -/
theorem aims_setTarget (p : Preview) (h : p.latest.position.isNumber = true) (now : Int) :
    (p.setTarget now).aims =
      !(p.latest.animation.isSome && p.drawn == p.latest.position &&
        p.tween.any fun t => t.target != p.latest.position) := by
  have hself := Point.beq_self h
  unfold setTarget
  cases p.latest.animation with
  | none => exact hself
  | some animation =>
      cases htween : p.tween with
      | none =>
          cases hdrawn : p.drawn == p.latest.position with
          | true => simp [bne, hdrawn, aims_of_none htween]
          | false => simpa [bne, hdrawn, aims] using hself
      | some t =>
          cases hdrawn : p.drawn == p.latest.position with
          -- the tween goes on, wherever it leads
          | true => simp [bne, hdrawn, aims_of_some htween]
          | false =>
              cases hunder : t.target == p.latest.position with
              | true => simp [hunder, aims_of_some htween]
              | false => simpa [bne, hdrawn, hunder, aims] using hself

/-- Taking over a sprite aims at it, unless it turns back. -/
theorem aims_observe (h : p.sequencer.store.motion.position.isNumber = true) (now : Int) :
    (p.observe now).2.aims = !p.turnsBack := by
  have htarget := aims_setTarget { p with
    latest := p.sequencer.store.motion
    observer := (p.observer.look p.sequencer.store).2 } h now
  exact htarget

/-- Moves the drawn place along the tween, wherever a tween has its place in between. -/
def moveBy (sample : Tween → Int → Point × Bool) (p : Preview) (now : Int) : Preview :=
  match p.tween with
  | none => p
  | some t =>
    let (place, done) := sample t now
    { p with drawn := place, tween := if done then none else some t }

theorem advance_eq_moveBy (p : Preview) (now : Int) :
    p.advance now = p.moveBy Tween.sample now := rfl

/-- A tween that arrives leaves the sprite drawn where it led. -/
theorem aims_moveBy {sample : Tween → Int → Point × Bool} {now : Int}
    (harrives : ∀ t place, sample t now = (place, true) → place = t.target) :
    (p.moveBy sample now).aims = p.aims := by
  unfold moveBy
  cases htween : p.tween with
  | none => rfl
  | some t =>
      rw [aims_of_some htween]
      dsimp only
      rcases hsample : sample t now with ⟨place, arrived⟩
      cases arrived with
      | true =>
          rw [← harrives t place hsample]
          exact aims_of_none rfl
      | false => exact aims_of_some rfl

theorem aims_advance (p : Preview) (now : Int) : (p.advance now).aims = p.aims := by
  rw [advance_eq_moveBy]
  exact aims_moveBy fun _ _ => Tween.eq_target_of_sample

/-- Drawing the menu and the status line leaves the aim alone. -/
theorem aims_chrome (p : Preview) (isDue : Bool) :
    (if isDue then p.renderChrome else ([], p)).2.aims = p.aims := by
  cases isDue <;> rfl

theorem aims_frame (p : Preview) (now : Int) : (p.frame now).2.aims = p.aims := by
  unfold frame
  cases p.tween.isSome with
  | true => exact (aims_chrome _ _).trans (p.aims_advance now)
  | false => exact aims_chrome p _

/-- What comes of an event: the sequencer is another one, and nothing is drawn, or the menu and the status
line, or everything. -/
theorem react_cases {motive : Preview → List Draw → Prop} (e : TerminalEvent)
    (silent : ∀ s, motive { p with sequencer := s } [])
    (chrome : ∀ s, motive { p with sequencer := s }.renderChrome.2
      { p with sequencer := s }.renderChrome.1)
    (full : ∀ s fullscreen ds, motive { p with sequencer := s, fullscreen }.renderFull.2
      (ds ++ { p with sequencer := s, fullscreen }.renderFull.1)) :
    motive (p.react e).preview (p.react e).drawing := by
  have hdispatch (isDue : Bool) (s : Sequencer) :
      motive (goOn (if isDue then { p with sequencer := s }.renderChrome
          else ([], { p with sequencer := s }))).preview
        (goOn (if isDue then { p with sequencer := s }.renderChrome
          else ([], { p with sequencer := s }))).drawing := by
    cases isDue with
    | true => exact chrome s
    | false => exact silent s
  unfold react
  generalize p.controls.respond p.sequencer e = response
  obtain ⟨command, s⟩ := response
  cases command with
  | quit => exact silent s
  | proceed => exact silent s
  | redraw => exact full s p.fullscreen []
  | toggleFullscreen => exact full s (!p.fullscreen) [.fullscreen !p.fullscreen]
  | _ => exact hdispatch _ _

theorem aims_react (p : Preview) (e : TerminalEvent) : (p.react e).preview.aims = p.aims :=
  react_cases (motive := fun q _ => q.aims = p.aims) e (fun _ => rfl) (fun _ => rfl) fun _ _ _ => rfl

/-! ## Runs of the preview -/

inductive Happening where
  /-- Something happens to its sequencer. -/
  | changes (s : Sequencer)
  | observes (now : Int)
  | frames (now : Int)
  | reacts (e : TerminalEvent)

def Happening.isObservation : Happening → Bool
  | .observes _ => true
  | _ => false

def happen (p : Preview) : Happening → Preview
  | .changes s => { p with sequencer := s }
  | .observes now => (p.observe now).2
  | .frames now => (p.frame now).2
  | .reacts e => (p.react e).preview

def happens (p : Preview) (hs : List Happening) : Preview := hs.foldl happen p

def seesNumbers : Preview → List Happening → Bool
  | _, [] => true
  | p, h :: hs => (!h.isObservation || p.sequencer.store.motion.position.isNumber) &&
      seesNumbers (p.happen h) hs

/-- Whether a preview strays: the sprite that was taken over last turned back. `strayed` tells it of
what happened before. -/
def strays (strayed : Bool) : Preview → List Happening → Bool
  | _, [] => strayed
  | p, h :: hs => strays (if h.isObservation then p.turnsBack else strayed) (p.happen h) hs

theorem aims_happen {h : Happening}
    (hnumber : (!h.isObservation || p.sequencer.store.motion.position.isNumber) = true) :
    (p.happen h).aims = !(if h.isObservation then p.turnsBack else !p.aims) := by
  cases h with
  | changes s => exact (Bool.not_not _).symm
  | observes now => exact aims_observe hnumber now
  | frames now => exact (p.aims_frame now).trans (Bool.not_not _).symm
  | reacts e => exact (p.aims_react e).trans (Bool.not_not _).symm

theorem aims_happens {hs : List Happening} (hnumbers : p.seesNumbers hs = true) :
    (p.happens hs).aims = !strays (!p.aims) p hs := by
  induction hs generalizing p with
  | nil => exact (Bool.not_not _).symm
  | cons h hs ih =>
      rw [seesNumbers, Bool.and_eq_true] at hnumbers
      have hstep := aims_happen hnumbers.1
      show ((p.happen h).happens hs).aims = _
      rw [ih hnumbers.2, strays, hstep, Bool.not_not]

/-- Where a preview draws its sprite after some happenings. -/
structure DrawsTrue (p : Preview) (hs : List Happening) : Prop where
  /-- Unless the sprite that was taken over last turned back, a tween leads to the place of the
  sprite. -/
  underWay : strays false p hs = false → ∀ t, (p.happens hs).tween = some t →
    (t.target == (p.happens hs).latest.position) = true
  /-- When the last tween arrived, the sprite is drawn where it is. -/
  arrived : strays false p hs = false → (p.happens hs).tween = none →
    ((p.happens hs).drawn == (p.happens hs).latest.position) = true
  /-- If it turned back, a tween leads elsewhere, and the sprite is drawn elsewhere when it
  arrived. -/
  astray : strays false p hs = true →
    (∀ t, (p.happens hs).tween = some t → (t.target == (p.happens hs).latest.position) = false) ∧
    ((p.happens hs).tween = none →
      ((p.happens hs).drawn == (p.happens hs).latest.position) = false)

/-- From its start on a preview draws its sprite where it is, unless the sprite turns back. -/
theorem draws_true {sequencer : Sequencer} {settings : Settings} {terminal : TerminalSize}
    {hs : List Happening} (hnumber : sequencer.store.motion.position.isNumber = true)
    (hnumbers : (ofSequencer sequencer settings terminal).seesNumbers hs = true) :
    (ofSequencer sequencer settings terminal).DrawsTrue hs := by
  have haims := aims_happens hnumbers
  rw [aims_ofSequencer hnumber, Bool.not_true] at haims
  refine ⟨?_, ?_, ?_⟩
  · intro hstrays t ht
    rw [hstrays, aims_of_some ht] at haims
    exact haims
  · intro hstrays hnone
    rw [hstrays, aims_of_none hnone] at haims
    exact haims
  · intro hstrays
    rw [hstrays] at haims
    refine ⟨fun t ht => ?_, fun hnone => ?_⟩
    · rwa [aims_of_some ht] at haims
    · rwa [aims_of_none hnone] at haims

/-- The sprite glides to the right for a second, and back after a step delay. -/
def gliding (ms : List Move) : Sequencer :=
  (Sequencer.threeActions 10).moves (.call (.replaceProgram
    ⟨[⟨.hat .flagClicked, [.glide 1.0 16.0 0.0, .glide 1.0 0.0 0.0]⟩]⟩) :: .call .run :: ms)

def glidingThere : Sequencer := gliding [.turn 0 false, .pass 10, .turn 0 false]

def glidingBack : Sequencer :=
  gliding [.turn 0 false, .pass 10, .turn 0 false, .turn 0 false, .pass 10, .turn 0 false]

/-- A frame is drawn between the two glides, so that the second one does not turn back. -/
theorem draws_true_gliding :
    ((Sequencer.threeActions 10).store.motion.position.isNumber = true ∧
      (ofSequencer (Sequencer.threeActions 10) {} ⟨60, 30⟩).seesNumbers
        [.changes glidingThere, .observes 10000, .frames 15000, .changes glidingBack,
          .observes 20000] = true) ∧
      strays false (ofSequencer (Sequencer.threeActions 10) {} ⟨60, 30⟩)
        [.changes glidingThere, .observes 10000, .frames 15000, .changes glidingBack,
          .observes 20000] = false ∧
      (ofSequencer (Sequencer.threeActions 10) {} ⟨60, 30⟩).DrawsTrue
        [.changes glidingThere, .observes 10000, .frames 15000, .changes glidingBack,
          .observes 20000] :=
  ⟨⟨by decide +kernel, by decide +kernel⟩, by decide +kernel,
    draws_true (by decide +kernel) (by decide +kernel)⟩

/-- Without a frame between the two glides the sprite is still drawn where the second one leads, and
the tween of the first one goes on. -/
theorem astray_gliding : ¬ ∀ (sequencer : Sequencer) (settings : Settings) (terminal : TerminalSize)
    (hs : List Happening), sequencer.Reachable → (∀ s, .changes s ∈ hs → s.Reachable) →
      (ofSequencer sequencer settings terminal).seesNumbers hs = true →
        ((ofSequencer sequencer settings terminal).happens hs).aims = true := by
  intro h
  have hreachable (ms : List Move) : (gliding ms).Reachable :=
    (Sequencer.Reachable.built (Sequencer.threeActions 10)).moves _
  have haims := h (Sequencer.threeActions 10) {} ⟨60, 30⟩
    [.changes glidingThere, .observes 10000, .changes glidingBack, .observes 20000]
    (Sequencer.Reachable.built (Sequencer.threeActions 10)) ?_ (by decide +kernel)
  · revert haims
    decide +kernel
  · intro s hs
    simp only [List.mem_cons, Happening.changes.injEq, reduceCtorEq, false_or, or_false,
      List.not_mem_nil] at hs
    rcases hs with rfl | rfl <;> exact hreachable _

end Preview

end SpriteStage
