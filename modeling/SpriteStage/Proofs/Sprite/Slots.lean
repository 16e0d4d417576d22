import SpriteStage.Sprite.Store

/-!
# What actions do to the slots

What an action does to the bubble and to the animation depends on the action alone. It leaves a slot
as it is, or writes it; what it writes stays until something else is written, or until its time is
over. The store notes the run of a step as the owner of what the step wrote, and the owner is gone as
soon as something other than a step changes the slot.
-/

namespace SpriteStage

def Effect.on (e : Effect) : Slot → SlotWrite
  | .text => e.text
  | .animation => e.animation

/-- What an action does to the slots, whatever the sprite and the scene are like. -/
def Action.effect : Action → Effect
  | .glide seconds _ _ => { animation := .timed (Duration.ofSeconds seconds) }
  | .glideRandom seconds => { animation := .timed (Duration.ofSeconds seconds) }
  | .pointTowards .pointer => { animation := .lasting }
  | .sayForSeconds _ seconds => { text := .timed (Duration.ofSeconds seconds) }
  | .thinkForSeconds _ seconds => { text := .timed (Duration.ofSeconds seconds) }
  | .say _ => { text := .lasting }
  | .think _ => { text := .lasting }
  | _ => {}

/-- Whether an action shows a bubble that no timer hides. -/
def Action.speaksOn : Action → Bool
  | .say _ => true
  | .think _ => true
  | _ => false

namespace Motion

/-- Whether a slot is as it was before anything happened: no bubble is shown, or nothing is
animated. -/
def IsDefault (m : Motion) : Slot → Prop
  | .text => m.text = Bubble.hidden
  | .animation => m.animation = none

def resetIn (m : Motion) : Slot → Motion
  | .text => { m with text := Bubble.hidden }
  | .animation => { m with animation := none }

def SameIn (m m' : Motion) : Slot → Prop
  | .text => m'.text = m.text
  | .animation => m'.animation = m.animation

theorem isDefault_initial (slot : Slot) : initial.IsDefault slot := by
  cases slot <;> rfl

theorem isDefault_resetIn (m : Motion) (slot : Slot) : (m.resetIn slot).IsDefault slot := by
  cases slot <;> rfl

theorem IsDefault.of_sameIn {m m' : Motion} {slot : Slot} (h : m.IsDefault slot)
    (hsame : m.SameIn m' slot) : m'.IsDefault slot := by
  cases slot <;> exact hsame.trans h

end Motion

namespace Action

variable {a : Action} {slot : Slot}

theorem apply_effect (a : Action) (m : Motion) (ctx : Scene) : (a.apply m ctx).effect = a.effect := by
  cases a with
  | pointTowards target => cases target <;> rfl
  | _ => rfl

theorem apply_of_untouched (h : a.effect.on slot = .untouched) (m : Motion) (ctx : Scene) :
    m.SameIn (a.apply m ctx).motion slot := by
  cases a with
  | pointTowards target => cases target <;> cases slot <;> first | rfl | cases h
  | _ => cases slot <;> first | rfl | cases h

/-- No action leaves an animation behind that no timer ends. -/
theorem apply_of_lasting (h : a.effect.animation = .lasting) (m : Motion) (ctx : Scene) :
    (a.apply m ctx).motion.animation = none := by
  cases a with
  | pointTowards target => cases target <;> first | rfl | cases h
  | _ => cases h

theorem speaksOn_of_lasting (h : a.effect.text = .lasting) : a.speaksOn = true := by
  cases a with
  | pointTowards target => cases target <;> cases h
  | _ => first | rfl | cases h

end Action

namespace Store

variable {s : Store} {slot : Slot} {run : Stamp}

/-- The run that wrote a slot last, if nothing else changed the slot since. -/
def owner (s : Store) : Slot → Option Stamp
  | .text => s.textOwner
  | .animation => s.animationOwner

theorem owns_iff : s.owns slot run = true ↔ s.owner slot = some run := by
  cases slot <;> exact beq_iff_eq

theorem owner_applyStep (s : Store) (run : Stamp) (m : Motion) (e : Effect) (slot : Slot) :
    (s.applyStep run m e).owner slot =
      if (e.on slot).isWritten then some run else s.owner slot := by
  cases slot <;> rfl

/-- A clear of the run that owns the slot. -/
theorem clear_of_owns (h : s.owns slot run = true) :
    (s.clear slot run).owner slot = none ∧
      (s.clear slot run).motion = s.motion.resetIn slot := by
  cases slot with
  | text =>
      have h : s.ownsText run = true := h
      rw [clear, clearText, if_pos h]
      exact ⟨rfl, rfl⟩
  | animation =>
      have h : s.ownsAnimation run = true := h
      rw [clear, clearAnimation, if_pos h]
      exact ⟨rfl, rfl⟩

/-- A clear leaves the other slot as it is. -/
theorem clear_of_ne {other : Slot} (h : other ≠ slot) (s : Store) (run : Stamp) :
    (s.clear other run).owner slot = s.owner slot ∧
      s.motion.SameIn (s.clear other run).motion slot := by
  cases howns : s.owns other run with
  | false =>
      rw [clear_of_not_owns howns]
      cases slot <;> exact ⟨rfl, rfl⟩
  | true =>
      cases other with
      | text =>
          have howns : s.ownsText run = true := howns
          rw [clear, clearText, if_pos howns]
          cases slot with
          | text => exact absurd rfl h
          | animation => exact ⟨rfl, rfl⟩
      | animation =>
          have howns : s.ownsAnimation run = true := howns
          rw [clear, clearAnimation, if_pos howns]
          cases slot with
          | text => exact ⟨rfl, rfl⟩
          | animation => exact absurd rfl h

/-- A clear takes a slot from its owner and hands it to no one. -/
theorem owner_clear {other : Slot} {stamp : Stamp}
    (h : (s.clear other stamp).owner slot = some run) : s.owner slot = some run := by
  by_cases hslot : other = slot
  · subst hslot
    cases howns : s.owns other stamp with
    | false => rwa [clear_of_not_owns howns] at h
    | true =>
        rw [(clear_of_owns howns).1] at h
        cases h
  · rwa [(clear_of_ne hslot s stamp).1] at h

@[simp] theorem history_clear (s : Store) (slot : Slot) (stamp : Stamp) :
    (s.clear slot stamp).history = s.history := by
  cases slot
  · show (s.clearText stamp).history = s.history
    unfold clearText
    split <;> rfl
  · show (s.clearAnimation stamp).history = s.history
    unfold clearAnimation
    split <;> rfl

theorem owner_restore (s : Store) (entry : Snapshot) (slot : Slot) :
    (s.restore entry).owner slot = none := by
  cases slot <;> rfl

theorem owner_reset (s : Store) (slot : Slot) : s.reset.owner slot = none := by
  cases slot <;> rfl

theorem owner_push (s : Store) (entry : Snapshot) (slot : Slot) :
    (s.push entry).owner slot = s.owner slot := by
  cases slot <;> rfl

end Store

end SpriteStage
