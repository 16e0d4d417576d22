import SpriteStage.Proofs.Sequencer.Idle
import SpriteStage.Proofs.Sequencer.Replay

/-!
# A run refines round robin

From a trigger on, in every schedule that keeps to the queue and to the clock, a run executes what its
scripts execute taking turns, as long as it goes on: that is `runs_round_robin`. The period of the
rounds is the step delay, or the longest time of a timer if the delay is longer.
-/

namespace SpriteStage.Sequencer

theorem stepTime_eq (s : Sequencer) :
    s.stepTime = min s.timing.stepDelayMs Duration.longestTimerMillis + s.lag := by
  unfold stepTime sleepTime
  rw [Duration.timerMillis_ofMillis]

/-- The steps of a run from its trigger on lead from the pose and the random numbers at the trigger to
those now, as long as it goes on. -/
theorem replay_runSteps {s : Sequencer} (hs : s.WellFormed) {event : Event} {run : Stamp}
    (hstart : (s.start event).1 = some run) {ms : List Move}
    (hcurrent : ((s.start event).2.moves ms).current = some run) :
    (((s.start event).2.moves ms).runSteps run).foldl Step.replay (s.pose, s.generator) =
      (((s.start event).2.moves ms).pose, ((s.start event).2.moves ms).generator) := by
  obtain ⟨hrun, hstarted⟩ := start_current hstart
  have hle := Nat.le_of_eq ((hs.start event).current_eq hstarted)
  obtain ⟨heads, hheads, hfold⟩ := Replays.start s event
  obtain ⟨heads', hheads', hown⟩ := start_executes s event
  obtain rfl : heads = heads' := List.append_cancel_left (hheads.symm.trans hheads')
  obtain ⟨later, hlater, hown', hfold'⟩ := moves_replay (hs.start event) hle hcurrent
  have hsteps : ((s.start event).2.moves ms).runSteps run = heads ++ later := by
    have hbefore : s.steps.filter (fun step => decide (step.run = run)) = [] := by
      -- steps from before are of runs with lower numbers
      rw [List.filter_eq_nil_iff]
      intro step hstep
      have := hs.steps step hstep
      simp only [decide_eq_true_eq]
      intro heq
      rw [heq, hrun] at this
      exact Nat.not_succ_le_self _ this
    unfold runSteps
    rw [hlater, hheads, List.filter_append, List.filter_append, hbefore, List.nil_append,
      List.filter_eq_self.mpr, List.filter_eq_self.mpr]
    · intro step hstep
      exact decide_eq_true (hown' step hstep)
    · intro step hstep
      exact decide_eq_true ((hown step hstep).trans hrun.symm)
  rw [hsteps, List.foldl_append, hfold, hfold']

/-- What a run that was started in `s` with some scripts comes to in `s'`, where no task waits for a
turn. -/
structure TakesTurns (s s' : Sequencer) (run : Stamp) (scripts : List Script) (period : Nat) :
    Prop where
  /-- Just the rounds up to now were executed, in their order and at their instants. -/
  executed : (s'.runSteps run).map Step.entry = roundRobin scripts s.now period s'.now
  /-- They lead from the pose and the random numbers at the trigger to those now. -/
  replayed : (s'.runSteps run).foldl Step.replay (s.pose, s.generator) = (s'.pose, s'.generator)
  /-- If no walker was in flight at the trigger, none is after the last round of the longest
  script. -/
  idle : s.inFlight = 0 →
    s'.waitIdle.now = max s'.now (s.now + longestRest scripts * period)

/-- Whatever is asked of the sequencer meanwhile, a run that was not superseded, undone or reset takes
turns with the scripts that the program had at the trigger. -/
theorem runs_round_robin {s : Sequencer} (hs : s.Reachable) {event : Event} {run : Stamp}
    (hstart : (s.start event).1 = some run) (hdelay : 0 < s.timing.stepDelayMs) :
    (∀ ms, (s.start event).2.InTurn ms →
      ((s.start event).2.moves ms).current = some run →
      ((s.start event).2.moves ms).ready = [] → ((s.start event).2.moves ms).yielded = [] →
      TakesTurns s ((s.start event).2.moves ms) run (s.program.scriptsFor event)
        (min s.timing.stepDelayMs Duration.longestTimerMillis + s.lag)) ∧
    (s.inFlight = 0 → (s.start event).2.settle.waitIdle.now =
      s.now + longestRest (s.program.scriptsFor event) *
        (min s.timing.stepDelayMs Duration.longestTimerMillis + s.lag)) := by
  have hwf := hs.wellFormed
  have hwf' : (s.start event).2.WellFormed := hwf.start event
  have htime : (s.start event).2.stepTime = s.stepTime := move_stepTime s (.call (.start event))
  -- a timer cuts a long delay short, but not to nothing
  have hpositive : s.stepTime ≠ 0 := by
    rw [stepTime_eq]
    have : 0 < Duration.longestTimerMillis := by decide
    omega
  obtain ⟨hrun, hcurrent⟩ := start_current hstart
  have hle : run ≤ (s.start event).2.runs.lastRun := Nat.le_of_eq (hwf'.current_eq hcurrent)
  have hschedule := onSchedule_start hwf hstart
  have hgoing (hidle : s.inFlight = 0) :
      (s.start event).2.Going run (s.program.scriptsFor event) s.now :=
    ⟨hwf', hcurrent, by rwa [htime], hschedule, Alone.start hs.counted hidle hstart,
      hs.counted.start event⟩
  rw [← stepTime_eq]
  constructor
  · intro ms hms hcurrent' hready hyielded
    have htime' : ((s.start event).2.moves ms).stepTime = s.stepTime := by
      rw [moves_stepTime, htime]
    constructor
    · have hlater := hschedule.moves hwf' hle (by rwa [htime]) hms hcurrent'
      rw [hlater.executed_eq (hwf'.moves ms) (by rwa [htime']) hready, htime']
    · exact replay_runSteps hwf hstart hcurrent'
    · intro hidle
      rw [((hgoing hidle).moves hms hcurrent').waitIdle_now hready hyielded, htime']
  · intro hidle
    have hsettled := (hgoing hidle).goes (settle_goes _)
    have hnow : (s.start event).2.now = s.now := (call_settings s (.start event)).2.2
    have htime' : (s.start event).2.settle.stepTime = s.stepTime := by
      rw [(settle_goes _).stepTime_eq, htime]
    rw [hsettled.waitIdle_now (settle_ready _) (settle_yielded _), settle_now, hnow, htime']
    exact Nat.max_eq_right (Nat.le_add_right _ _)

def interrupted : Sequencer := (threeActions 5).moves [.call .run, .turn 0 false, .pass 5]

/-- The flag is clicked at the instant at which the walker of the run before is due. -/
theorem runs_round_robin_interrupted :
    (((interrupted.start .flagClicked).2.moves
      [.turn 0 false, .turn 0 false, .pass 5, .turn 0 false]).runSteps 2).map Step.time = [5, 10] ∧
    TakesTurns interrupted
      ((interrupted.start .flagClicked).2.moves
        [.turn 0 false, .turn 0 false, .pass 5, .turn 0 false])
      2 (interrupted.program.scriptsFor .flagClicked) (min 5 Duration.longestTimerMillis + 0) := by
  have hreachable : interrupted.Reachable := (Reachable.built (threeActions 5)).moves _
  have hstart : (interrupted.start .flagClicked).1 = some 2 := by decide +kernel
  obtain ⟨hturns, -⟩ := runs_round_robin hreachable hstart (by decide +kernel)
  refine ⟨by decide +kernel, ?_⟩
  exact hturns [.turn 0 false, .turn 0 false, .pass 5, .turn 0 false] (by decide +kernel)
    (by decide +kernel) (by decide +kernel) (by decide +kernel)

/-- A delay of more than thirty years is no period: the rounds come earlier. -/
theorem round_robin_capped :
    ¬ ∀ s : Sequencer, s.Reachable → s.lag = 0 → 0 < s.timing.stepDelayMs →
      ∀ event run, (s.start event).1 = some run → ∀ ms, (s.start event).2.InTurn ms →
        ((s.start event).2.moves ms).current = some run →
        ((s.start event).2.moves ms).ready = [] → ((s.start event).2.moves ms).yielded = [] →
        (((s.start event).2.moves ms).runSteps run).map Step.entry =
          roundRobin (s.program.scriptsFor event) s.now s.timing.stepDelayMs
            ((s.start event).2.moves ms).now := by
  intro h
  have hrounds := h (threeActions 946080000005) (.built (threeActions 946080000005)) rfl (by decide)
    .flagClicked 1 rfl [.turn 0 false, .pass 946080000000, .turn 0 false] (by decide +kernel)
    (by decide +kernel) (by decide +kernel) (by decide +kernel)
  have htimes := congrArg (List.map Prod.fst) hrounds
  revert htimes
  decide +kernel

end SpriteStage.Sequencer
