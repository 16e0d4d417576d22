import SpriteStage.Proofs.Sequencer.Calls

/-!
# Random targets

Every random target takes the same number of draws, and nothing else draws: neither another action nor
any move of a sequencer. How many targets were drawn is therefore all that the next one depends on,
besides the seed and the stage. `draws_by_index` compares two sessions that have nothing but those in
common.
-/

namespace SpriteStage

/-! ## One target -/

def drawsBelow (limit : Float) : Nat := if limit > 0.0 then 1 else 0

def StageSettings.draws (stage : StageSettings) : Nat :=
  drawsBelow stage.widthPx + drawsBelow stage.heightPx

namespace Generator

def skip (g : Generator) (draws : Nat) : Generator := { g with drawn := g.drawn + draws }

theorem skip_skip (g : Generator) (m n : Nat) : (g.skip m).skip n = g.skip (m + n) := by
  simp only [skip, Nat.add_assoc]

theorem below_snd (g : Generator) (limit : Float) :
    (g.below limit).2 = g.skip (drawsBelow limit) := by
  unfold below drawsBelow
  split <;> rfl

/-- The random target of a number, the targets on the stage counted from zero. -/
def target (g : Generator) (stage : StageSettings) (n : Nat) : Point :=
  let g := g.skip (stage.draws * n)
  ⟨(g.below stage.widthPx).1, ((g.below stage.widthPx).2.below stage.heightPx).1⟩

theorem target_skip (g : Generator) (stage : StageSettings) (k n : Nat) :
    (g.skip (stage.draws * k)).target stage n = g.target stage (k + n) := by
  simp only [target, skip_skip, Nat.mul_add]

end Generator

theorem Scene.randomPoint_eq (ctx : Scene) :
    ctx.randomPoint = (ctx.generator.target ctx.stage 0, ctx.generator.skip ctx.stage.draws) := by
  have hsnd : ctx.randomPoint.2 = ctx.generator.skip ctx.stage.draws := by
    show ((ctx.generator.below ctx.stage.widthPx).2.below ctx.stage.heightPx).2 = _
    rw [Generator.below_snd, Generator.below_snd, Generator.skip_skip]
    rfl
  exact Prod.ext rfl hsnd

def Action.isRandom : Action → Bool
  | .goToRandom => true
  | .glideRandom _ => true
  | _ => false

/-- Only the actions with a random target draw. -/
theorem Action.apply_generator (a : Action) (m : Motion) (ctx : Scene) :
    (a.apply m ctx).generator =
      if a.isRandom then ctx.generator.skip ctx.stage.draws else ctx.generator := by
  have hrandom := congrArg Prod.snd ctx.randomPoint_eq
  cases a with
  | goToRandom => exact hrandom
  | glideRandom seconds => exact hrandom
  | pointTowards target => cases target <;> rfl
  | _ => rfl

theorem Action.apply_position {a : Action} (h : a.isRandom = true) (m : Motion) (ctx : Scene) :
    (a.apply m ctx).motion.position = ctx.generator.target ctx.stage 0 := by
  cases a with
  | goToRandom => rfl
  | glideRandom seconds => rfl
  | _ => cases h

def Step.target? (step : Step) : Option Point :=
  if step.action.isRandom then some step.scene.randomPoint.1 else none

/-- A step with a random target puts the sprite there. -/
theorem Step.position_of_target {step : Step} {p : Point} (h : step.target? = some p) (m : Motion) :
    (step.action.apply m step.scene).motion.position = p := by
  unfold target? at h
  split at h
  · rename_i hrandom
    cases h
    rw [Action.apply_position hrandom, Scene.randomPoint_eq]
  · cases h

namespace Sequencer

def targets (s : Sequencer) : List Point := s.steps.filterMap Step.target?

/-! ## What moves do to the random numbers -/

def dice (s : Sequencer) : Generator × StageSettings × List Step := (s.generator, s.stage, s.steps)

@[simp] theorem dice_enter (s : Sequencer) (epoch : Nat) : (s.enter epoch).dice = s.dice := by
  unfold enter
  split <;> rfl

@[simp] theorem dice_leave (s : Sequencer) (epoch : Nat) : (s.leave epoch).dice = s.dice := by
  unfold leave
  split <;> rfl

theorem dice_note {n : Note} (h : n.step? = none) (s : Sequencer) : (s.note n).dice = s.dice := by
  unfold dice
  rw [steps_note h]
  rfl

section Kept

variable {P : Generator × StageSettings × List Step → Prop}
  (step : ∀ (s : Sequencer) run script a, P s.dice → P (s.dispatch run script a).dice)
include step

theorem dice_walkerTurn {s : Sequencer} (h : P s.dice) (w : Walker) (due : Option Nat) :
    P (s.walkerTurn w due).dice := by
  cases live : s.isCancelled (.walk w) with
  | true =>
      rw [walkerTurn_of_cancelled live, dice_leave]
      exact h
  | false =>
      refine walkerTurn_induction (P := fun s' _ => P s'.dice) (Q := fun s' => P s'.dice)
        ?_ ?_ ?_ ?_ live h ?_ ?_
      · intro s' a _ _ h'
        exact step s' _ _ a h'
      · intro s' h'
        rw [dice_leave]
        exact h'
      · intro _ _ _ _ h'
        exact h'
      · intro _ _ _ _ h'
        exact h'
      · intro a _ _ _ _ _
        exact step s _ _ a h
      · intro _ _ _
        exact h

theorem dice_turnAt {s : Sequencer} (h : P s.dice) (place : Nat) (dueFirst : Bool) :
    P (s.turnAt place dueFirst).dice := by
  refine turnAt_induction (Q := fun s' => P s'.dice) ?_ ?_ ?_ ?_ ?_
  · intro _
    exact h
  · intro w due _
    exact dice_walkerTurn step (s := s.without place) h w due
  · intro c due _
    exact h
  · intro c due _
    have hfire : ((s.without place).fire c).dice = s.dice := dice_note rfl s
    rw [hfire]
    exact h
  · intro c due d _ _ _
    exact h

theorem dice_startScripts {s : Sequencer} (h : P s.dice) (run : ActiveRun) (epoch : Nat)
    (scripts : List Script) (place : Nat) : P (s.startScripts run epoch scripts place).dice := by
  induction scripts generalizing s place with
  | nil => exact h
  | cons script scripts ih =>
      rw [startScripts_cons]
      have hhead := step s run.id place script.head h
      refine ih ?_ _
      unfold startScript
      dsimp only
      split
      · exact hhead
      · have hspawn (s' : Sequencer) (work : Work) : (s'.spawn work).dice = s'.dice := rfl
        rw [hspawn, dice_enter]
        exact hhead

/-- What every step that is executed keeps is kept by every move. -/
theorem dice_move {s : Sequencer} (h : P s.dice) (m : Move) : P (s.move m).dice := by
  cases m with
  | call c =>
      rw [move_call]
      rcases call_cases s c with ⟨event, heq⟩ | heq | heq | ⟨_, _, _, heq⟩ <;> rw [heq]
      · rcases start_cases s event with ⟨-, hstart⟩ | ⟨-, hstart⟩ <;> rw [hstart]
        · exact h
        · have hopen : (s.openRun event).2.dice = s.dice := dice_note rfl _
          exact dice_startScripts step (hopen ▸ h) _ _ _ _
      · rcases undo_cases s with ⟨-, hundo⟩ | ⟨_, _, -, hundo⟩ <;> rw [hundo]
        · exact h
        · rw [dice_note rfl]
          exact h
      · have hreset : s.reset.dice = s.dice := dice_note rfl _
        rw [hreset]
        exact h
      · exact h
  | turn place dueFirst => exact dice_turnAt step h place dueFirst
  | pass ms => exact h
  | rejoin => exact h

end Kept

/-! ## What was drawn -/

/-- From a state on some steps were executed, `count` of them with a random target. Theirs are the next
targets of the generator, and nothing else was drawn. -/
def Draws (s : Sequencer) (d : Generator × StageSettings × List Step) : Prop :=
  d.2.1 = s.stage ∧ ∃ new count, d.2.2 = s.steps ++ new ∧
    new.filterMap Step.target? = (List.range count).map (s.generator.target s.stage) ∧
    d.1 = s.generator.skip (s.stage.draws * count)

theorem draws_dispatch {s s' : Sequencer} (h : Draws s s'.dice) (run : Stamp) (script : Nat)
    (a : Action) : Draws s (s'.dispatch run script a).dice := by
  obtain ⟨hstage, new, count, hsteps, htargets, hgenerator⟩ := h
  have hstage : s'.stage = s.stage := hstage
  have hsteps : s'.steps = s.steps ++ new := hsteps
  have hgenerator : s'.generator = s.generator.skip (s.stage.draws * count) := hgenerator
  have happly : (s'.dispatch run script a).generator =
      if a.isRandom then s'.generator.skip s'.stage.draws else s'.generator :=
    a.apply_generator s'.store.motion s'.scene
  have htarget : (s'.stepOf run script a).target? =
      if a.isRandom then some (s.generator.target s.stage count) else none := by
    have hpoint : s'.scene.randomPoint.1 = s'.generator.target s'.stage 0 :=
      congrArg Prod.fst s'.scene.randomPoint_eq
    rw [hstage, hgenerator, Generator.target_skip, Nat.add_zero] at hpoint
    rw [← hpoint]
    rfl
  have hadded : (s'.dispatch run script a).steps = s.steps ++ (new ++ [s'.stepOf run script a]) := by
    rw [steps_dispatch, hsteps, List.append_assoc]
  cases hrandom : a.isRandom with
  | true =>
      rw [hrandom, if_pos rfl] at happly htarget
      refine ⟨hstage, _, count + 1, hadded, ?_, ?_⟩
      · simp [List.filterMap_append, htargets, htarget, List.range_succ]
      · show (s'.dispatch run script a).generator = _
        rw [happly, hgenerator, hstage, Generator.skip_skip, Nat.mul_succ]
  | false =>
      rw [hrandom, if_neg Bool.false_ne_true] at happly htarget
      refine ⟨hstage, _, count, hadded, ?_, ?_⟩
      · simp [List.filterMap_append, htargets, htarget]
      · exact happly.trans hgenerator

theorem draws_moves (s : Sequencer) (ms : List Move) : Draws s (s.moves ms).dice := by
  have hstart : Draws s s.dice :=
    ⟨rfl, [], 0, (List.append_nil _).symm, rfl, rfl⟩
  have hmoves {s' : Sequencer} (h : Draws s s'.dice) : Draws s (s'.moves ms).dice := by
    induction ms generalizing s' with
    | nil => exact h
    | cons m ms ih => exact ih (dice_move (fun _ run script a h => draws_dispatch h run script a) h m)
  exact hmoves hstart

/-- A sequencer that draws from a seed for a stage and has executed nothing. -/
structure Seeded (seed : Nat) (stage : StageSettings) (s : Sequencer) : Prop where
  generator : s.generator = Generator.ofSeed seed
  stage : s.stage = stage
  steps : s.steps = []

theorem seeded_ofSettings (settings : Settings) (bounds : Bounds) (seed : Nat) :
    (ofSettings settings bounds seed).Seeded (settings.seed.getD seed) settings.stage :=
  ⟨rfl, rfl, rfl⟩

variable {seed : Nat} {stage : StageSettings} {s s' : Sequencer}

/-- The random targets of a session are those of its seed and its stage, in order. -/
theorem Seeded.targets_moves (h : s.Seeded seed stage) (ms : List Move) :
    ∃ count, (s.moves ms).targets =
      (List.range count).map ((Generator.ofSeed seed).target stage) := by
  obtain ⟨-, new, count, hsteps, htargets, -⟩ := draws_moves s ms
  have hsteps : (s.moves ms).steps = s.steps ++ new := hsteps
  refine ⟨count, ?_⟩
  rw [targets, hsteps, h.steps, List.nil_append, htargets, h.generator, h.stage]

/-- What two sessions have in common that draw from the same seed for the same stage. -/
structure DrawAlike (s s' : Sequencer) (ms ms' : List Move) : Prop where
  /-- Random targets of the same number are the same. -/
  targets : ∀ (n : Nat) (p p' : Point), (s.moves ms).targets[n]? = some p →
    (s'.moves ms').targets[n]? = some p' → p = p'
  /-- The sprite is put at the target of a step. -/
  position : ∀ step ∈ (s.moves ms).steps, ∀ p, step.target? = some p →
    ∀ m, (step.action.apply m step.scene).motion.position = p
  /-- A move draws for the steps with a random target that it executes, and for nothing else. -/
  draws : ∀ m, ∃ new, ((s.moves ms).move m).steps = (s.moves ms).steps ++ new ∧
    ((s.moves ms).move m).generator =
      (s.moves ms).generator.skip (s.stage.draws * (new.filterMap Step.target?).length)

/-- Random targets depend on the seed, the stage and their number, and on nothing else that happens in
a session. -/
theorem draws_by_index (h : s.Seeded seed stage) (h' : s'.Seeded seed stage) (ms ms' : List Move) :
    DrawAlike s s' ms ms' := by
  refine ⟨fun n p p' hp hp' => ?_, fun step _ p hp => Step.position_of_target hp, fun m => ?_⟩
  · obtain ⟨count, htargets⟩ := h.targets_moves ms
    obtain ⟨count', htargets'⟩ := h'.targets_moves ms'
    rw [htargets, List.getElem?_map, Option.map_eq_some_iff] at hp
    rw [htargets', List.getElem?_map, Option.map_eq_some_iff] at hp'
    obtain ⟨i, hi, rfl⟩ := hp
    obtain ⟨i', hi', rfl⟩ := hp'
    obtain ⟨-, rfl⟩ := List.getElem?_eq_some_iff.mp hi
    obtain ⟨-, rfl⟩ := List.getElem?_eq_some_iff.mp hi'
    rw [List.getElem_range, List.getElem_range]
  · obtain ⟨-, new, count, hsteps, htargets, hgenerator⟩ := draws_moves (s.moves ms) [m]
    have hstage : (s.moves ms).stage = s.stage := (draws_moves s ms).1
    refine ⟨new, hsteps, ?_⟩
    rw [htargets, List.length_map, List.length_range, ← hstage]
    exact hgenerator

def strolling : List Move :=
  [.call (.replaceProgram ⟨[⟨.hat .flagClicked, [.goToRandom, .glideRandom 1.0]⟩]⟩), .call .run,
    .turn 0 false, .pass 10, .turn 0 false, .pass 10, .turn 0 false]

/-- The sprite glides to a random place after another step, and goes to one after a reset. -/
def wandering : List Move :=
  [.call (.replaceProgram ⟨[⟨.hat .spriteClicked, [.move 3.0, .glideRandom 2.0]⟩]⟩),
    .call (.start .spriteClicked), .turn 0 false, .pass 10, .turn 0 false, .pass 10, .turn 0 false,
    .call .reset, .call (.replaceProgram ⟨[⟨.hat .keyPressed, [.goToRandom]⟩]⟩),
    .call (.start .keyPressed), .turn 1 false, .pass 10, .turn 1 false]

def wanderer : Sequencer := ofSettings { seed := some 0 } (.onStage (.ofSettings {} 0 0) none) 7

theorem seeded_threeActions : (threeActions 10).Seeded 0 {} := ⟨rfl, rfl, rfl⟩

theorem seeded_wanderer : wanderer.Seeded 0 {} :=
  seeded_ofSettings { seed := some 0 } (.onStage (.ofSettings {} 0 0) none) 7

theorem draws_by_index_wandering :
    ((threeActions 10).Seeded 0 {} ∧ wanderer.Seeded 0 {}) ∧
    (((threeActions 10).moves strolling).targets.length = 2 ∧
      (wanderer.moves wandering).targets.length = 2) ∧
    DrawAlike (threeActions 10) wanderer strolling wandering :=
  ⟨⟨seeded_threeActions, seeded_wanderer⟩, ⟨by decide +kernel, by decide +kernel⟩,
    draws_by_index seeded_threeActions seeded_wanderer strolling wandering⟩

end Sequencer

end SpriteStage
