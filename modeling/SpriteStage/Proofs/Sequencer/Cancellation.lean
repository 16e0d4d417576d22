import SpriteStage.Proofs.Sequencer.Walks

/-!
# Cancellation and order

Whatever is asked of a sequencer and in whatever order its tasks have their turns, a step is executed
for the run that is current then, and for a run that was superseded, undone or reset nothing is
executed any more. Of each of its scripts a run executes the actions in order, from the head on and
without a gap, with a step delay between one and the next. A timer runs thirty years at most, and so
does the delay.
-/

namespace SpriteStage

/-- The steps that were executed of a script are its actions in order up to some point, the head
included, each at least a delay after those before it. -/
structure Follows (steps : List Step) (script : Script) (delay : Nat) : Prop where
  begun : steps ≠ []
  inOrder : steps.map Step.action <+: script.actions
  spaced : steps.Pairwise fun a b => a.time + delay ≤ b.time

namespace Sequencer

/-- A delay of whole milliseconds is kept by every walker, up to the longest time of a timer. -/
theorem le_stepTime (s : Sequencer) :
    min s.timing.stepDelayMs Duration.longestTimerMillis ≤ s.stepTime := by
  unfold stepTime sleepTime
  rw [Duration.timerMillis_ofMillis]
  exact Nat.le_add_right _ _

theorem OnTrack.follows {s : Sequencer} {run : Stamp} {place : Nat} {script : Script}
    (h : s.OnTrack run place script) : Follows (s.stepsOf run place) script s.stepTime := by
  obtain ⟨rest, hwalked, -⟩ := h
  exact ⟨hwalked.begun, ⟨rest, hwalked.order⟩, hwalked.spaced⟩

theorem Follows.mono {steps : List Step} {script : Script} {delay delay' : Nat}
    (h : Follows steps script delay) (hle : delay' ≤ delay) : Follows steps script delay' := by
  refine ⟨h.begun, h.inOrder, h.spaced.imp ?_⟩
  intro a b hab
  exact Nat.le_trans (Nat.add_le_add_left hle a.time) hab

/-- What a sequencer keeps to from a state on, in every schedule of calls, turns and time. -/
structure CancelsSafely (s : Sequencer) : Prop where
  /-- A move executes steps of the run that is current when it is over, and a turn leaves the
  current run as it is. -/
  current : ∀ m, Executes (fun step => (s.move m).current = some step.run) s (s.move m)
  turn : ∀ slot dueFirst, (s.turnAt slot dueFirst).current = s.current
  /-- A trigger that starts a run supersedes the one before it. -/
  started : ∀ event run, (s.start event).1 = some run →
    s.current ≠ some run ∧ (s.start event).2.current = some run
  undone : s.undo.2.current = none
  reset : s.reset.current = none
  /-- A run that was started and is not current any more never is again, and nothing is executed
  for it. -/
  ended : ∀ run, run ≤ s.runs.lastRun → s.current ≠ some run → ∀ ms,
    (s.moves ms).current ≠ some run ∧ Executes (fun step => step.run ≠ run) s (s.moves ms)
  /-- A run follows the scripts that the program had for its event when it was started, whatever
  program is put in later. -/
  follows : ∀ event run, (s.start event).1 = some run → ∀ ms place script,
    (s.program.scriptsFor event)[place]? = some script →
    Follows (((s.start event).2.moves ms).stepsOf run place) script
      (min s.timing.stepDelayMs Duration.longestTimerMillis)
  /-- A run executes nothing else. -/
  nothingElse : ∀ event run, (s.start event).1 = some run → ∀ ms place,
    (s.program.scriptsFor event).length ≤ place →
    ((s.start event).2.moves ms).stepsOf run place = []

theorem cancelsSafely {s : Sequencer} (hs : s.Reachable) : s.CancelsSafely where
  current := move_executes hs.wellFormed
  turn := turnAt_current s
  started := by
    intro event run hstart
    obtain ⟨hrun, hcurrent⟩ := start_current hstart
    refine ⟨?_, hcurrent⟩
    intro hbefore
    have hlast := hs.wellFormed.current_eq hbefore
    rw [hrun] at hlast
    exact Nat.succ_ne_self _ hlast
  undone := undo_current s
  reset := reset_current s
  ended := fun run hle hover ms => moves_steps_of_over hs.wellFormed hle hover ms
  follows := by
    intro event run hstart ms place script hscript
    have honTrack := (onTrack_start hs.wellFormed hstart hscript).moves ms
    have htime : (s.start event).2.stepTime = s.stepTime := move_stepTime s (.call (.start event))
    refine Follows.mono honTrack.follows ?_
    rw [moves_stepTime, htime]
    exact s.le_stepTime
  nothingElse := by
    intro event run hstart ms place hplace
    have huntouched := untouched_start hs.wellFormed hstart hplace
    obtain ⟨hrun, hcurrent⟩ := start_current hstart
    have hlast := (hs.move (.call (.start event))).wellFormed.current_eq hcurrent
    exact (huntouched.moves (Nat.le_of_eq hlast) ms).1

/-- The flag is clicked while the script is in the middle, after another program was put in. -/
def superseded : Sequencer :=
  (threeActions 5).moves
    [.call .run, .turn 0 false, .pass 5, .turn 0 false,
      .call (.replaceProgram ⟨[⟨.hat .flagClicked, []⟩]⟩), .call (.start .flagClicked)]

theorem cancelsSafely_superseded :
    superseded.steps.map Step.run = [1, 1, 2] ∧ superseded.current = some 2 ∧
      superseded.CancelsSafely := by
  have hreachable : superseded.Reachable := (Reachable.built (threeActions 5)).moves _
  exact ⟨by decide +kernel, by decide +kernel, cancelsSafely hreachable⟩

/-- A delay of more than thirty years is not kept: the second of the actions comes too early. -/
theorem step_delay_capped :
    ¬ ∀ s : Sequencer, s.Reachable → ∀ event run, (s.start event).1 = some run → ∀ ms place,
      (s.start event).2.InTurn ms →
      (((s.start event).2.moves ms).stepsOf run place).tail.IsChain fun a b =>
        a.time + s.timing.stepDelayMs ≤ b.time := by
  intro h
  have hreachable := Reachable.built (threeActions 946080000005)
  have hchain := h (threeActions 946080000005) hreachable .flagClicked 1 rfl
    [.turn 0 false, .pass 946080000000, .turn 0 false, .pass 946080000000, .turn 0 false] 0
    (by decide +kernel)
  revert hchain
  decide +kernel

end Sequencer

end SpriteStage
