import SpriteStage.Proofs.Sequencer.WellFormed

/-!
# The steps that moves execute

A move adds steps to those that were executed before, and all of them belong to the run that is
current then. A run that is no longer current never is again, so nothing more is executed for it.
-/

namespace SpriteStage.Sequencer

/-- Of two sequencers the later one executed some more steps, each of them as told. -/
def Executes (p : Step → Prop) (s s' : Sequencer) : Prop :=
  ∃ new, s'.steps = s.steps ++ new ∧ ∀ step ∈ new, p step

namespace Executes

variable {p q : Step → Prop} {s s' s'' : Sequencer}

theorem of_eq (h : s'.steps = s.steps) : Executes p s s' := by
  refine ⟨[], by rw [h, List.append_nil], ?_⟩
  intro step hstep
  cases hstep

theorem mono (h : Executes p s s') (hpq : ∀ step, p step → q step) : Executes q s s' := by
  obtain ⟨new, heq, hnew⟩ := h
  exact ⟨new, heq, fun step hstep => hpq step (hnew step hstep)⟩

theorem trans (h : Executes p s s') (h' : Executes p s' s'') : Executes p s s'' := by
  obtain ⟨new, heq, hnew⟩ := h
  obtain ⟨new', heq', hnew'⟩ := h'
  refine ⟨new ++ new', by rw [heq', heq, List.append_assoc], ?_⟩
  intro step hstep
  rcases List.mem_append.mp hstep with hstep | hstep
  · exact hnew step hstep
  · exact hnew' step hstep

theorem dispatch {run : Stamp} {script : Nat} {a : Action} (h : p (s.stepOf run script a)) :
    Executes p s (s.dispatch run script a) := by
  refine ⟨[s.stepOf run script a], steps_dispatch s run script a, ?_⟩
  intro step hstep
  rw [List.mem_singleton.mp hstep]
  exact h

end Executes

/-! ## Turns -/

/-- A walker executes steps of its own script only, and none when it was cancelled. -/
theorem walkerTurn_executes (s : Sequencer) (w : Walker) (due : Option Nat) :
    Executes (fun step => s.isCancelled (.walk w) = false ∧ step.run = w.run ∧
      step.script = w.script ∧ step.time = s.now) s (s.walkerTurn w due) := by
  cases live : s.isCancelled (.walk w) with
  | true =>
      rw [walkerTurn_of_cancelled live]
      exact Executes.of_eq (steps_leave s w.epoch)
  | false =>
      refine walkerTurn_induction (P := fun s' _ => s'.frame = s.frame ∧
          Executes (fun step => false = false ∧ step.run = w.run ∧ step.script = w.script ∧
            step.time = s.now) s s') ?_ ?_ ?_ ?_ live ⟨rfl, .of_eq rfl⟩ ?_ ?_
      · rintro s' a rest - ⟨hframe, h⟩
        have hnow := now_of_frame hframe
        exact ⟨hframe, h.trans (.dispatch ⟨rfl, rfl, rfl, hnow⟩)⟩
      · rintro s' ⟨-, h⟩
        exact h.trans (.of_eq (steps_leave s' w.epoch))
      · rintro s' a rest - ⟨-, h⟩
        exact h
      · rintro s' a rest - ⟨-, h⟩
        exact h
      · intro a rest d _ _ _
        exact ⟨rfl, .dispatch ⟨rfl, rfl, rfl, rfl⟩⟩
      · intro d _ _
        exact .of_eq rfl

theorem steps_clearTurn (dueFirst : Bool) (s : Sequencer) (c : Clear) (due : Option Nat) :
    (s.clearTurn dueFirst c due).steps = s.steps := by
  rcases clearTurn_cases dueFirst s c due with ⟨h, -⟩ | ⟨h, -⟩ | ⟨-, -, h⟩ <;> rw [h]
  · exact steps_fire s c
  · exact steps_sleep s _ _

/-- A task in its turn executes steps as a walker of the run that goes on, if any. -/
theorem turn_executes (dueFirst : Bool) (s : Sequencer) (t : Ready) :
    Executes (fun step => ∃ w, t.work = .walk w ∧ s.isCancelled (.walk w) = false ∧
      step.run = w.run ∧ step.script = w.script ∧ step.time = s.now) s (s.turn dueFirst t) := by
  unfold turn
  split
  · rename_i w hw
    exact (walkerTurn_executes s w t.due).mono fun step h => ⟨w, hw, h⟩
  · exact .of_eq (steps_clearTurn dueFirst s _ t.due)

theorem turnAt_executes (s : Sequencer) (place : Nat) (dueFirst : Bool) :
    Executes (fun step => ∃ t ∈ s.tasks, ∃ w, t.work = .walk w ∧
      s.isCancelled (.walk w) = false ∧ step.run = w.run ∧ step.script = w.script ∧
      step.time = s.now) s (s.turnAt place dueFirst) := by
  cases h : s.ready[place]? with
  | none =>
      rw [turnAt_of_none h]
      exact .of_eq rfl
  | some t =>
      have hmem : t ∈ s.tasks := (tasks_without_perm h).mem_iff.mpr List.mem_cons_self
      rw [turnAt_of_some h]
      exact (turn_executes dueFirst (s.without place) t).mono fun step hstep => ⟨t, hmem, hstep⟩

/-! ## Calls -/

theorem startScript_executes (s : Sequencer) (run : ActiveRun) (epoch : Nat)
    (script : Script × Nat) :
    Executes (fun step => step.run = run.id ∧ step.script = script.2) s
      (s.startScript run epoch script) := by
  have h : Executes (fun step => step.run = run.id ∧ step.script = script.2) s
      (s.dispatch run.id script.2 script.1.head) := .dispatch ⟨rfl, rfl⟩
  unfold startScript
  dsimp only
  split
  · exact h
  · exact h.trans (.of_eq (steps_enter _ epoch))

theorem startScripts_executes (s : Sequencer) (run : ActiveRun) (epoch : Nat)
    (scripts : List Script) (place : Nat) :
    Executes (fun step => step.run = run.id ∧ place ≤ step.script) s
      (s.startScripts run epoch scripts place) := by
  induction scripts generalizing s place with
  | nil => exact .of_eq rfl
  | cons script scripts ih =>
      rw [startScripts_cons]
      refine Executes.trans ?_ ((ih _ (place + 1)).mono ?_)
      · refine (startScript_executes s run epoch (script, place)).mono ?_
        rintro step ⟨hrun, hscript⟩
        exact ⟨hrun, Nat.le_of_eq hscript.symm⟩
      · rintro step ⟨hrun, hscript⟩
        exact ⟨hrun, Nat.le_of_succ_le hscript⟩

theorem start_executes (s : Sequencer) (event : Event) :
    Executes (fun step => step.run = s.runs.lastRun + 1) s (s.start event).2 := by
  rcases start_cases s event with ⟨-, heq⟩ | ⟨-, heq⟩ <;> rw [heq]
  · exact .of_eq rfl
  · refine Executes.trans (.of_eq (steps_openRun s event)) ?_
    refine (startScripts_executes _ _ _ _ _).mono ?_
    rintro step ⟨hrun, -⟩
    rw [hrun, openRun_id]

theorem steps_cancelCurrent (s : Sequencer) : s.cancelCurrent.steps = s.steps := rfl

theorem steps_undo (s : Sequencer) : s.undo.2.steps = s.steps := by
  rcases undo_cases s with ⟨-, heq⟩ | ⟨_, _, -, heq⟩ <;> rw [heq]
  · exact steps_cancelCurrent s
  · exact steps_note rfl _

theorem steps_reset (s : Sequencer) : s.reset.steps = s.steps := steps_note rfl _

/-! ## The run that is current -/

/-- A trigger that starts a run makes it the current one, under a number of its own. -/
theorem start_current {s : Sequencer} {event : Event} {run : Stamp}
    (h : (s.start event).1 = some run) :
    run = s.runs.lastRun + 1 ∧ (s.start event).2.current = some run := by
  rcases start_cases s event with ⟨-, heq⟩ | ⟨-, heq⟩ <;> rw [heq] at h ⊢
  · cases h
  · cases h
    refine ⟨rfl, ?_⟩
    have hruns := runs_of_frame (startScripts_frame (s.openRun event).2 (s.openRun event).1
      (s.openRun event).2.runs.epoch (s.program.scriptsFor event) 0)
    unfold current
    rw [hruns]
    exact openRun_current s event

theorem cancelCurrent_current (s : Sequencer) : s.cancelCurrent.current = none :=
  s.runs.current_cancelActive

theorem undo_current (s : Sequencer) : s.undo.2.current = none := by
  rcases undo_cases s with ⟨-, heq⟩ | ⟨_, _, -, heq⟩ <;> rw [heq] <;>
    exact cancelCurrent_current s

theorem reset_current (s : Sequencer) : s.reset.current = none := rfl

theorem turnAt_current (s : Sequencer) (place : Nat) (dueFirst : Bool) :
    (s.turnAt place dueFirst).current = s.current :=
  congrArg Runs.current (runs_of_frame (turnAt_frame s place dueFirst))

theorem start_lastRun (s : Sequencer) (event : Event) :
    (s.start event).2.runs.lastRun = s.runs.lastRun ∧ (s.start event).2.current = s.current ∨
    (s.start event).2.runs.lastRun = s.runs.lastRun + 1 ∧
      (s.start event).2.current = some (s.runs.lastRun + 1) := by
  rcases start_cases s event with ⟨-, heq⟩ | ⟨-, heq⟩
  · rw [heq]
    exact .inl ⟨rfl, rfl⟩
  · have hstarted : (s.start event).1 = some (s.runs.lastRun + 1) := by rw [heq]
    refine .inr ⟨?_, (start_current hstarted).2⟩
    rw [heq, runs_of_frame (startScripts_frame _ _ _ _ _)]
    exact s.runs.lastRun_start

theorem undo_lastRun (s : Sequencer) : s.undo.2.runs.lastRun = s.runs.lastRun := by
  rcases undo_cases s with ⟨-, heq⟩ | ⟨_, _, -, heq⟩ <;> rw [heq] <;>
    exact Runs.cancelActive_lastRun s.runs

/-- A move leaves the current run, cancels it or starts a new one. -/
theorem move_current (s : Sequencer) (m : Move) :
    (s.move m).runs.lastRun = s.runs.lastRun ∧
      ((s.move m).current = s.current ∨ (s.move m).current = none) ∨
    (s.move m).runs.lastRun = s.runs.lastRun + 1 ∧
      (s.move m).current = some (s.runs.lastRun + 1) := by
  cases m with
  | call c =>
      rw [move_call]
      rcases call_cases s c with ⟨event, heq⟩ | heq | heq | ⟨_, _, _, heq⟩ <;> rw [heq]
      · rcases start_lastRun s event with ⟨hlast, hcurrent⟩ | h
        · exact .inl ⟨hlast, .inl hcurrent⟩
        · exact .inr h
      · exact .inl ⟨undo_lastRun s, .inr (undo_current s)⟩
      · exact .inl ⟨rfl, .inr (reset_current s)⟩
      · exact .inl ⟨rfl, .inl rfl⟩
  | turn place dueFirst =>
      have hruns := runs_of_frame (turnAt_frame s place dueFirst)
      exact .inl ⟨congrArg Runs.lastRun hruns, .inl (turnAt_current s place dueFirst)⟩
  | pass ms => exact .inl ⟨rfl, .inl rfl⟩
  | rejoin => exact .inl ⟨rfl, .inl rfl⟩

theorem move_lastRun_le (s : Sequencer) (m : Move) : s.runs.lastRun ≤ (s.move m).runs.lastRun := by
  rcases move_current s m with ⟨hlast, -⟩ | ⟨hlast, -⟩
  · exact Nat.le_of_eq hlast.symm
  · exact hlast ▸ Nat.le_succ _

/-- A run that is over stays so. -/
theorem move_current_ne {s : Sequencer} {run : Stamp} (hle : run ≤ s.runs.lastRun)
    (hover : s.current ≠ some run) (m : Move) : (s.move m).current ≠ some run := by
  rcases move_current s m with ⟨-, hcurrent | hcurrent⟩ | ⟨-, hcurrent⟩ <;> rw [hcurrent]
  · exact hover
  · exact nofun
  · intro heq
    have heq : s.runs.lastRun + 1 = run := Option.some.inj heq
    exact Nat.not_succ_le_self _ (heq ▸ hle)

/-- A call after which a run goes on that was started before it leaves runs, tasks, sprite and journal
as they are. -/
theorem call_of_current {s : Sequencer} {run : Stamp} (hle : run ≤ s.runs.lastRun) {c : Call}
    (hcurrent : (s.call c).2.current = some run) :
    ∃ pointer bounds program, (s.call c).2 = { s with pointer, bounds, program } := by
  rcases call_cases s c with ⟨event, heq⟩ | heq | heq | heq
  · rw [heq] at hcurrent ⊢
    rcases start_cases s event with ⟨-, hstart⟩ | ⟨-, hstart⟩
    · rw [hstart]
      exact ⟨s.pointer, s.bounds, s.program, rfl⟩
    · have hstarted : (s.start event).1 = some (s.runs.lastRun + 1) := by rw [hstart]
      rw [(start_current hstarted).2] at hcurrent
      exact absurd hle (Option.some.inj hcurrent ▸ Nat.not_succ_le_self _)
  · rw [heq, undo_current] at hcurrent
    cases hcurrent
  · rw [heq, reset_current] at hcurrent
    cases hcurrent
  · exact heq

/-- What a move executes belongs to the run that is current when the move is over. -/
theorem move_executes {s : Sequencer} (h : s.WellFormed) (m : Move) :
    Executes (fun step => (s.move m).current = some step.run) s (s.move m) := by
  cases m with
  | call c =>
      rw [move_call]
      rcases call_cases s c with ⟨event, heq⟩ | heq | heq | ⟨_, _, _, heq⟩ <;> rw [heq]
      · rcases start_cases s event with ⟨-, hstart⟩ | ⟨-, hstart⟩
        · rw [hstart]
          exact .of_eq rfl
        · refine (start_executes s event).mono ?_
          intro step hrun
          rw [hrun]
          exact (start_current (by rw [hstart])).2
      · exact .of_eq (steps_undo s)
      · exact .of_eq (steps_reset s)
      · exact .of_eq rfl
  | turn place dueFirst =>
      refine (turnAt_executes s place dueFirst).mono ?_
      rintro step ⟨t, ht, w, hw, hlive, hrun, -, -⟩
      have hfits : w.Fits s.runs := by
        have := h.fits t ht
        rwa [hw] at this
      change (s.turnAt place dueFirst).current = _
      rw [turnAt_current, hrun]
      exact Runs.current_of_active (hfits.live hlive).1
  | pass ms => exact .of_eq rfl
  | rejoin => exact .of_eq rfl

/-- For a run that is over nothing is executed any more. -/
theorem moves_steps_of_over {s : Sequencer} (h : s.WellFormed) {run : Stamp}
    (hle : run ≤ s.runs.lastRun) (hover : s.current ≠ some run) (ms : List Move) :
    (s.moves ms).current ≠ some run ∧
      Executes (fun step => step.run ≠ run) s (s.moves ms) := by
  induction ms generalizing s with
  | nil => exact ⟨hover, .of_eq rfl⟩
  | cons m ms ih =>
      have hnext := move_current_ne hle hover m
      obtain ⟨hlater, hsteps⟩ := ih (h.move m) (Nat.le_trans hle (move_lastRun_le s m)) hnext
      refine ⟨hlater, Executes.trans ((move_executes h m).mono ?_) hsteps⟩
      intro step hcurrent hrun
      exact hnext (hrun ▸ hcurrent)

/-- A run that goes on after a schedule went on before it. -/
theorem current_of_moves {s : Sequencer} (h : s.WellFormed) {run : Stamp}
    (hle : run ≤ s.runs.lastRun) {ms : List Move} (hcurrent : (s.moves ms).current = some run) :
    s.current = some run := by
  by_contra hover
  exact (moves_steps_of_over h hle hover ms).1 hcurrent

end SpriteStage.Sequencer
