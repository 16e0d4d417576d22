import Mathlib.Data.List.Induction
import SpriteStage.Proofs.Sprite.Slots

/-!
# What actions change, and what they report

An action changes no part of the sprite but those that it owns, and what it reports of the bubble and of the
animation is what it did to them. What it reports does not depend on the sprite or on the scene, so after
any steps on a store the owner of a slot is the run of the last step whose action writes that slot:
`reports_honestly`.
-/

namespace SpriteStage

inductive Part where
  | x
  | y
  | rotation
  | animation
  | text
  | size
deriving DecidableEq, Repr

def Slot.part : Slot → Part
  | .text => .text
  | .animation => .animation

def Motion.AgreesIn (m m' : Motion) : Part → Prop
  | .x => m'.position.x = m.position.x
  | .y => m'.position.y = m.position.y
  | .rotation => m'.rotation = m.rotation
  | .animation => m'.animation = m.animation
  | .text => m'.text = m.text
  | .size => m'.size = m.size

/-- Sprites that are alike in every part are the same. -/
theorem Motion.eq_of_agreesIn {m m' : Motion} (h : ∀ part, m.AgreesIn m' part) : m' = m := by
  obtain ⟨⟨x, y⟩, rotation, animation, text, size⟩ := m
  obtain ⟨⟨x', y'⟩, rotation', animation', text', size'⟩ := m'
  obtain rfl : x' = x := h .x
  obtain rfl : y' = y := h .y
  obtain rfl : rotation' = rotation := h .rotation
  obtain rfl : animation' = animation := h .animation
  obtain rfl : text' = text := h .text
  obtain rfl : size' = size := h .size
  rfl

namespace Action

/-- The parts of the sprite that an action owns. -/
def parts : Action → List Part
  | .goTo _ _ | .goToRandom => [.x, .y]
  | .move _ | .changeXBy _ | .setX _ => [.x]
  | .changeYBy _ | .setY _ => [.y]
  | .clockwise _ | .anticlockwise _ | .pointInDirection _ => [.rotation]
  | .glide _ _ _ | .glideRandom _ => [.x, .y, .animation]
  | .pointTowards .pointer => [.rotation, .animation]
  | .sayForSeconds _ _ | .say _ | .thinkForSeconds _ _ | .think _ => [.text]
  | .changeSize _ => [.size]
  | .hat _ | .unrecognized _ | .pointTowards (.other _) => []

/-- An action shows a bubble with a message: one to say or to think, for some seconds or until it is
replaced. -/
inductive Speaks : Action → (message : String) → (think : Bool) → (seconds : Option Float) → Prop
  | sayForSeconds (message : String) (seconds : Float) :
      Speaks (.sayForSeconds message seconds) message false (some seconds)
  | thinkForSeconds (message : String) (seconds : Float) :
      Speaks (.thinkForSeconds message seconds) message true (some seconds)
  | say (message : String) : Speaks (.say message) message false none
  | think (message : String) : Speaks (.think message) message true none

inductive Glides : Action → (seconds : Float) → Prop
  | glide (seconds x y : Float) : Glides (.glide seconds x y) seconds
  | glideRandom (seconds : Float) : Glides (.glideRandom seconds) seconds

variable {a : Action} {message : String} {think : Bool} {seconds : Float} {time : Duration}

theorem apply_frame (a : Action) (m : Motion) (ctx : Scene) {part : Part} (h : part ∉ a.parts) :
    m.AgreesIn (a.apply m ctx).motion part := by
  cases a with
  | pointTowards target => cases target <;> cases part <;> first | rfl | simp [parts] at h
  | _ => cases part <;> first | rfl | simp [parts] at h

/-! ## The bubble -/

theorem effect_text_eq_timed :
    a.effect.text = .timed time ↔
      ∃ message think seconds, a.Speaks message think (some seconds) ∧
        time = Duration.ofSeconds seconds := by
  constructor
  · intro h
    cases a with
    | sayForSeconds message seconds =>
        exact ⟨_, _, _, .sayForSeconds message seconds, (SlotWrite.timed.inj h).symm⟩
    | thinkForSeconds message seconds =>
        exact ⟨_, _, _, .thinkForSeconds message seconds, (SlotWrite.timed.inj h).symm⟩
    | pointTowards target => cases target <;> cases h
    | _ => cases h
  · rintro ⟨message, think, seconds, h, rfl⟩
    cases h <;> rfl

theorem effect_text_eq_lasting :
    a.effect.text = .lasting ↔ ∃ message think, a.Speaks message think none := by
  constructor
  · intro h
    cases a with
    | say message => exact ⟨_, _, .say message⟩
    | think message => exact ⟨_, _, .think message⟩
    | pointTowards target => cases target <;> cases h
    | _ => cases h
  · rintro ⟨message, think, h⟩
    cases h <;> rfl

/-- The time recorded for a bubble: that of the action, or of the scene if the action has none. -/
theorem Speaks.apply_text {seconds : Option Float} (h : a.Speaks message think seconds) (m : Motion)
    (ctx : Scene) : (a.apply m ctx).motion.text =
      ⟨message, ((seconds.map Duration.ofSeconds).getD ctx.sayDuration).millis, think⟩ := by
  cases h <;> rfl

/-! ## The animation -/

theorem effect_animation_eq_timed :
    a.effect.animation = .timed time ↔
      ∃ seconds, a.Glides seconds ∧ time = Duration.ofSeconds seconds := by
  constructor
  · intro h
    cases a with
    | glide seconds x y => exact ⟨_, .glide seconds x y, (SlotWrite.timed.inj h).symm⟩
    | glideRandom seconds => exact ⟨_, .glideRandom seconds, (SlotWrite.timed.inj h).symm⟩
    | pointTowards target => cases target <;> cases h
    | _ => cases h
  · rintro ⟨seconds, h, rfl⟩
    cases h <;> rfl

theorem effect_animation_eq_lasting :
    a.effect.animation = .lasting ↔ a = .pointTowards .pointer := by
  constructor
  · intro h
    cases a with
    | pointTowards target => cases target <;> first | rfl | cases h
    | _ => cases h
  · rintro rfl
    rfl

theorem Glides.apply_animation (h : a.Glides seconds) (m : Motion) (ctx : Scene) :
    (a.apply m ctx).motion.animation =
      some ⟨.glide, (Duration.ofSeconds seconds).millis⟩ := by
  cases h <;> rfl

theorem effect_untouched (a : Action) :
    a.effect.text = .untouched ∨ a.effect.animation = .untouched := by
  cases a with
  | pointTowards target => cases target <;> exact .inl rfl
  | _ => first | exact .inl rfl | exact .inr rfl

/-! ## Reports -/

/-- The milliseconds recorded for a time: the whole ones, as many as sixty-four bits hold. -/
def recordedMs (time : Duration) : Nat := min (time.nanos / 1000000) (UInt64.size - 1)

/-- What comes of an action is within what it owns, and what it reports is what it did. -/
structure ReportsHonestly (a : Action) (m : Motion) (ctx : Scene) (out : Outcome) : Prop where
  /-- The parts of the sprite that the action does not own are as they were. -/
  frame : ∀ part, part ∉ a.parts → m.AgreesIn out.motion part
  /-- An action that owns nothing does nothing to the sprite. -/
  idle : a.parts = [] → out.motion = m
  /-- What is reported does not depend on the sprite or on the scene. -/
  effect : out.effect = a.effect
  /-- A slot that is reported as untouched is as it was. -/
  untouched : ∀ slot, out.effect.on slot = .untouched → m.SameIn out.motion slot
  /-- The bubble is reported as written for a time by the two actions that speak for some seconds. It
  is the bubble of the action, for the whole milliseconds of that time. -/
  timedText : ∀ time, out.effect.text = .timed time ↔
    ∃ message think seconds, a.Speaks message think (some seconds) ∧
      time = Duration.ofSeconds seconds ∧ out.motion.text = ⟨message, recordedMs time, think⟩
  /-- The animation is reported as written for a time by the two actions that glide. It is a glide
  for the whole milliseconds of that time. -/
  timedAnimation : ∀ time, out.effect.animation = .timed time ↔
    ∃ seconds, a.Glides seconds ∧ time = Duration.ofSeconds seconds ∧
      out.motion.animation = some ⟨.glide, recordedMs time⟩
  /-- The bubble is reported as written to stay by the two actions that speak until something else is
  written. It is the bubble of the action, for the time that the scene has for such bubbles. -/
  lastingText : out.effect.text = .lasting ↔ ∃ message think, a.Speaks message think none ∧
    out.motion.text = ⟨message, recordedMs ctx.sayDuration, think⟩
  /-- The animation is reported as written to stay by turning to the pointer, which ends it. -/
  lastingAnimation : out.effect.animation = .lasting ↔
    a = .pointTowards .pointer ∧ out.motion.animation = none
  /-- At most one slot is reported as written. -/
  oneSlot : out.effect.text = .untouched ∨ out.effect.animation = .untouched

theorem reportsHonestly_apply (a : Action) (m : Motion) (ctx : Scene) :
    a.ReportsHonestly m ctx (a.apply m ctx) where
  frame _ := a.apply_frame m ctx
  idle hparts := Motion.eq_of_agreesIn fun part => a.apply_frame m ctx (by simp [hparts])
  effect := a.apply_effect m ctx
  untouched slot h := by
    rw [apply_effect] at h
    exact apply_of_untouched h m ctx
  timedText time := by
    rw [apply_effect, effect_text_eq_timed]
    constructor
    · rintro ⟨message, think, seconds, h, rfl⟩
      exact ⟨message, think, seconds, h, rfl, h.apply_text m ctx⟩
    · rintro ⟨message, think, seconds, h, htime, -⟩
      exact ⟨message, think, seconds, h, htime⟩
  timedAnimation time := by
    rw [apply_effect, effect_animation_eq_timed]
    constructor
    · rintro ⟨seconds, h, rfl⟩
      exact ⟨seconds, h, rfl, h.apply_animation m ctx⟩
    · rintro ⟨seconds, h, htime, -⟩
      exact ⟨seconds, h, htime⟩
  lastingText := by
    rw [apply_effect, effect_text_eq_lasting]
    constructor
    · rintro ⟨message, think, h⟩
      exact ⟨message, think, h, h.apply_text m ctx⟩
    · rintro ⟨message, think, h, -⟩
      exact ⟨message, think, h⟩
  lastingAnimation := by
    rw [apply_effect]
    constructor
    · exact fun h => ⟨effect_animation_eq_lasting.mp h, apply_of_lasting h m ctx⟩
    · exact fun h => effect_animation_eq_lasting.mpr h.1
  oneSlot := by
    rw [apply_effect]
    exact a.effect_untouched

/-- An action writes a slot when it owns that part of the sprite. -/
def writes (a : Action) (slot : Slot) : Bool := a.parts.contains slot.part

/-- Just what is written is reported as written. -/
theorem isWritten_effect (a : Action) (slot : Slot) :
    (a.effect.on slot).isWritten = a.writes slot := by
  cases a with
  | pointTowards target => cases target <;> cases slot <;> rfl
  | _ => cases slot <;> rfl

end Action

/-! ## Steps on a store -/

structure Execution where
  run : Stamp
  action : Action
  scene : Scene

namespace Store

variable {slot : Slot}

/-- Executes a step: the action does to the sprite what it does, and the store notes what it reports. -/
def execute (s : Store) (e : Execution) : Store :=
  let out := e.action.apply s.motion e.scene
  s.applyStep e.run out.motion out.effect

theorem owner_execute (s : Store) (e : Execution) (slot : Slot) :
    (s.execute e).owner slot = if e.action.writes slot then some e.run else s.owner slot := by
  rw [execute, owner_applyStep, Action.apply_effect, Action.isWritten_effect]

/-- The owner of a slot is the run of the last step that wrote it. -/
theorem owner_foldl_execute (es : List Execution) (slot : Slot) :
    (es.foldl execute {}).owner slot =
      (es.reverse.find? fun e => e.action.writes slot).map Execution.run := by
  induction es using List.reverseRecOn with
  | nil => cases slot <;> rfl
  | append_singleton es e ih =>
      rw [List.foldl_append, List.foldl_cons, List.foldl_nil, owner_execute, ih,
        List.reverse_append, List.reverse_singleton, List.singleton_append, List.find?_cons]
      cases e.action.writes slot <;> rfl

end Store

/-- **Actions keep to what they own and report it.** After any steps on a new store a slot belongs to the
run of the last step that wrote it, and to none if there was no such step. -/
theorem Action.reports_honestly :
    (∀ (a : Action) (m : Motion) (ctx : Scene), a.ReportsHonestly m ctx (a.apply m ctx)) ∧
    ∀ (es : List Execution) (slot : Slot), (es.foldl Store.execute {}).owner slot =
      (es.reverse.find? fun e => e.action.writes slot).map Execution.run :=
  ⟨reportsHonestly_apply, Store.owner_foldl_execute⟩

end SpriteStage
