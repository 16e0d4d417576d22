import SpriteStage.Proofs.Sequencer.Touches

/-!
# What is timed ends

An animation always comes of a glide whose clear is still to come, so that none goes on for ever. For
bubbles the same holds but for one case: an undo brings back the bubble that was shown at a trigger,
and no clear owns that one.
-/

namespace SpriteStage

def Duration.ceilMillis (d : Duration) : Nat := (d.nanos + 999999) / 1000000

theorem Duration.timerMillis_le_ceilMillis (d : Duration) : d.timerMillis ≤ d.ceilMillis :=
  Nat.min_le_left _ _

namespace Sequencer

/-- The clears that are still to come and were not cancelled. -/
def pending (s : Sequencer) : Multiset Alarm :=
  s.alarms.filter fun alarm => s.isCancelled (.clear alarm.clear) = false

theorem mem_pending {s : Sequencer} {alarm : Alarm} :
    alarm ∈ s.pending ↔ alarm ∈ s.alarms ∧ s.isCancelled (.clear alarm.clear) = false :=
  Multiset.mem_filter

/-- What was written for a time into a slot that still holds it is going to be cleared. -/
theorem exists_pending {s : Sequencer} {punctual : Prop} (h : s.ledger.Held punctual) {slot : Slot}
    {step : Step} {time : Duration} (htouch : lastTouch s.journal slot = some (.written step))
    (htimed : step.action.effect.on slot = .timed time) :
    ∃ alarm ∈ s.pending, alarm.clear = ⟨slot, step.run, s.runs.session, time⟩ ∧
      (punctual → alarm.due = step.time + (time.timerMillis + s.lag)) := by
  have hslot : s.ledger.Holds punctual slot (some (.written step)) := htouch ▸ h.slots slot
  have hwritten := hslot.2
  unfold Ledger.IsWritten at hwritten
  rw [htimed] at hwritten
  obtain ⟨alarm, halarm, hclear, hdue⟩ := hwritten
  refine ⟨alarm, mem_pending.mpr ⟨halarm, ?_⟩, hclear, hdue⟩
  rw [hclear]
  exact h.runs.session_isCancelled

/-! ## Animations -/

/-- An animation is that of the last glide, which owns it, and the clear of the glide is still to come:
on a schedule that is `punctual` not later than the time of the glide, rounded up to milliseconds and
with what the clock takes on top, after the glide. -/
structure AnimationsEnd (punctual : Prop) (s : Sequencer) : Prop where
  glides : s.store.motion.animation ≠ none → ∃ step time,
    lastTouch s.journal .animation = some (.written step) ∧
      step.action.effect.animation = .timed time ∧ s.store.animationOwner = some step.run ∧
      ∃ alarm ∈ s.pending, alarm.clear = ⟨.animation, step.run, s.runs.session, time⟩ ∧
        (punctual → alarm.due ≤ step.time + (time.ceilMillis + s.lag))
  idle : (∀ alarm ∈ s.pending, alarm.clear.slot ≠ .animation) → s.store.motion.animation = none

theorem animationsEnd_of_held {s : Sequencer} {punctual : Prop} (h : s.ledger.Held punctual) :
    s.AnimationsEnd punctual := by
  have hglides (hsome : s.store.motion.animation ≠ none) : ∃ step time,
      lastTouch s.journal .animation = some (.written step) ∧
        step.action.effect.animation = .timed time ∧ s.store.animationOwner = some step.run := by
    have hslot := h.slots .animation
    cases htouch : lastTouch s.journal .animation with
    | none =>
        rw [show s.ledger.journal = s.journal from rfl, htouch] at hslot
        exact absurd hslot.2 hsome
    | some touch =>
        rw [show s.ledger.journal = s.journal from rfl, htouch] at hslot
        cases touch with
        | cleared => exact absurd hslot.2 hsome
        | restored => exact absurd hslot.2 hsome
        | reset => exact absurd hslot.2 hsome
        | written step =>
            obtain ⟨howner, hwritten⟩ := hslot
            unfold Ledger.IsWritten at hwritten
            split at hwritten
            · exact hwritten.elim
            · -- a write that lasts is that of an action that ends the animation
              exact absurd (hwritten rfl) hsome
            · rename_i time htimed
              exact ⟨step, time, rfl, htimed, howner⟩
  constructor
  · intro hsome
    obtain ⟨step, time, htouch, htimed, howner⟩ := hglides hsome
    obtain ⟨alarm, halarm, hclear, hdue⟩ := exists_pending h htouch htimed
    refine ⟨step, time, htouch, htimed, howner, alarm, halarm, hclear, ?_⟩
    intro hp
    rw [hdue hp]
    exact Nat.add_le_add_left (Nat.add_le_add_right time.timerMillis_le_ceilMillis _) _
  · intro hnone
    by_contra hsome
    obtain ⟨step, time, htouch, htimed, -⟩ := hglides hsome
    obtain ⟨alarm, halarm, hclear, -⟩ := exists_pending h htouch htimed
    exact hnone alarm halarm (by rw [hclear])

/-- In every state of a schedule an animation is going to end. -/
theorem animations_end (s : Sequencer) (ms : List Move) :
    (s.rebuilt.moves ms).AnimationsEnd (s.rebuilt.OnTime ms) :=
  animationsEnd_of_held (held_moves s ms)

/-- A glide of one second, and then a click that starts another run. -/
def gliding : List Move :=
  [.call (.replaceProgram
      ⟨[⟨.hat .flagClicked, [.glide 1.0 4.0 3.0]⟩, ⟨.hat .spriteClicked, []⟩]⟩),
    .call .run, .turn 0 false, .pass 5, .turn 0 false, .turn 0 false,
    .call (.start .spriteClicked)]

theorem animations_end_gliding :
    (threeActions 5).rebuilt.OnTime gliding ∧
      ((threeActions 5).rebuilt.moves gliding).current = some 2 ∧
      ((threeActions 5).rebuilt.moves gliding).store.motion.animation = some ⟨.glide, 1000⟩ ∧
      ((threeActions 5).rebuilt.moves gliding).AnimationsEnd
        ((threeActions 5).rebuilt.OnTime gliding) :=
  ⟨by decide +kernel, by decide +kernel, by decide +kernel, animations_end (threeActions 5) gliding⟩

/-- A glide of one second whose clear has its first turn only when that second is over. -/
def lateTurn : Sequencer :=
  (threeActions 5).rebuilt.moves
    [.call (.replaceProgram ⟨[⟨.hat .flagClicked, [.glide 1.0 4.0 3.0]⟩]⟩), .call .run,
      .turn 0 false, .pass 5, .turn 0 false, .pass 1000, .turn 0 false]

def writtenUntil? : Touch → Option Nat
  | .written step =>
      step.action.effect.animation.time?.map fun time => step.time + time.ceilMillis
  | _ => none

/-- The time of a clear begins at its first turn. When that turn comes late the animation outlasts its
glide. -/
theorem animation_outlasts_glide :
    ¬ ∀ s : Sequencer, s.Reachable → s.lag = 0 → s.AnimationsEnd True := by
  intro h
  have hreachable : lateTurn.Reachable := (Reachable.built (threeActions 5)).moves _
  have hend : (lastTouch lateTurn.journal .animation).bind writtenUntil? = some 1005 := by
    decide +kernel
  have hdue : ∀ alarm ∈ lateTurn.pending, alarm.due = 2005 := by decide +kernel
  obtain ⟨step, time, htouch, htimed, -, alarm, halarm, -, hle⟩ :=
    (h lateTurn hreachable (by decide +kernel)).glides (by decide +kernel)
  rw [htouch, Option.bind_some, writtenUntil?, htimed] at hend
  have hend : step.time + time.ceilMillis = 1005 := Option.some.inj hend
  have hle := hle trivial
  rw [hdue alarm halarm, show lateTurn.lag = 0 by decide +kernel] at hle
  omega

/-! ## Bubbles -/

/-- As long as only speech with a time is executed, a bubble is hidden once no clear is pending,
unless the last touch was an undo that brought back the bubble of a snapshot. -/
theorem timed_bubbles_end {s : Sequencer} (hs : s.Reachable)
    (hspeech : ∀ step ∈ s.steps, step.action.speaksOn = false)
    (hpending : ∀ alarm ∈ s.pending, alarm.clear.slot ≠ .text) :
    s.store.motion.text = Bubble.hidden ∨
      lastTouch s.journal .text = some .restored ∧ ∃ time run event before,
        Note.started time run event before ∈ s.journal ∧ s.store.motion.text = before.text := by
  have hslot := hs.held.slots .text
  have hjournal : s.ledger.journal = s.journal := rfl
  rw [hjournal] at hslot
  cases htouch : lastTouch s.journal .text with
  | none =>
      rw [htouch] at hslot
      exact .inl hslot.2
  | some touch =>
      rw [htouch] at hslot
      cases touch with
      | cleared => exact .inl hslot.2
      | reset => exact .inl hslot.2
      | restored =>
          obtain ⟨-, n, hn, before, hbefore, htext⟩ := hslot
          refine .inr ⟨rfl, ?_⟩
          cases n with
          | started time run event before =>
              cases hbefore
              exact ⟨time, run, event, before, hn, htext⟩
          | _ => cases hbefore
      | written step =>
          exfalso
          have hwritten := hslot.2
          unfold Ledger.IsWritten at hwritten
          split at hwritten
          · exact hwritten
          · rename_i hlasting
            have hstep : step ∈ s.steps := by
              refine List.mem_filterMap.mpr ⟨.executed step, ?_, rfl⟩
              exact List.mem_reverse.mpr (executed_of_lastTouch htouch)
            have hspeaks := hspeech step hstep
            rw [Action.speaksOn_of_lasting hlasting] at hspeaks
            cases hspeaks
          · rename_i time htimed
            obtain ⟨alarm, halarm, hclear, -⟩ := exists_pending hs.held htouch htimed
            exact hpending alarm halarm (by rw [hclear])

/-- "hello" is said for a second, and after half a second a click that is undone at once. -/
def restoredBubble : Sequencer :=
  (threeActions 5).moves
    [.call (.replaceProgram
        ⟨[⟨.hat .flagClicked, [.sayForSeconds "hello" 1.0]⟩, ⟨.hat .spriteClicked, []⟩]⟩),
      .call .run, .turn 0 false, .pass 5, .turn 0 false, .turn 0 false, .pass 500,
      .call (.start .spriteClicked), .call .undo, .pass 500, .turn 0 false]

theorem timed_bubbles_end_restored :
    restoredBubble.store.motion.text = ⟨"hello", 1000, false⟩ ∧
      (restoredBubble.store.motion.text = Bubble.hidden ∨
        lastTouch restoredBubble.journal .text = some .restored ∧ ∃ time run event before,
          Note.started time run event before ∈ restoredBubble.journal ∧
            restoredBubble.store.motion.text = before.text) := by
  have hreachable : restoredBubble.Reachable := (Reachable.built (threeActions 5)).moves _
  exact ⟨by decide +kernel,
    timed_bubbles_end hreachable (by decide +kernel) (by decide +kernel)⟩

theorem restored_bubble_stays : ¬ ∀ s : Sequencer, s.Reachable →
    (∀ step ∈ s.steps, step.action.speaksOn = false) → s.inFlight = 0 → s.pending = 0 →
    s.store.motion.text = Bubble.hidden := by
  intro h
  have hreachable : restoredBubble.Reachable := (Reachable.built (threeActions 5)).moves _
  have hpending : restoredBubble.pending = 0 := Multiset.card_eq_zero.mp (by decide +kernel)
  have htext := h restoredBubble hreachable (by decide +kernel) (by decide +kernel) hpending
  revert htext
  decide +kernel

end Sequencer

end SpriteStage
