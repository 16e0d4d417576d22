import SpriteStage.Proofs.Sequencer.Runs
import SpriteStage.Proofs.Sequencer.Turns

/-!
# What calls do

Each call from outside either leaves a sequencer as it is or does one thing: it starts the scripts of
a run, brings a snapshot back, begins a session, or changes something that only later steps look at.
-/

namespace SpriteStage.Sequencer

/-! ## Starting scripts -/

@[simp] theorem startScripts_nil (s : Sequencer) (run : ActiveRun) (epoch place : Nat) :
    s.startScripts run epoch [] place = s := rfl

@[simp] theorem startScripts_cons (s : Sequencer) (run : ActiveRun) (epoch place : Nat)
    (script : Script) (scripts : List Script) :
    s.startScripts run epoch (script :: scripts) place =
      (s.startScript run epoch (script, place)).startScripts run epoch scripts (place + 1) := by
  simp only [startScripts, List.zipIdx_cons, List.foldl_cons]

@[simp] theorem startScript_frame (s : Sequencer) (run : ActiveRun) (epoch : Nat)
    (script : Script × Nat) : (s.startScript run epoch script).frame = s.frame := by
  unfold startScript
  dsimp only
  split
  · exact dispatch_frame s _ _ _
  · rw [spawn_frame, enter_frame, dispatch_frame]

@[simp] theorem startScripts_frame (s : Sequencer) (run : ActiveRun) (epoch : Nat)
    (scripts : List Script) (place : Nat) :
    (s.startScripts run epoch scripts place).frame = s.frame := by
  induction scripts generalizing s place with
  | nil => rfl
  | cons script scripts ih => rw [startScripts_cons, ih, startScript_frame]

/-! ## Opening a run -/

theorem openRun_active (s : Sequencer) (event : Event) :
    (s.openRun event).2.runs.active = some (s.openRun event).1 := rfl

theorem openRun_id (s : Sequencer) (event : Event) :
    (s.openRun event).1.id = s.runs.lastRun + 1 := by
  change s.runs.cancelActive.lastRun + 1 = _
  rw [Runs.cancelActive_lastRun]

theorem openRun_current (s : Sequencer) (event : Event) :
    (s.openRun event).2.current = some (s.runs.lastRun + 1) := by
  rw [← openRun_id s event]
  exact Runs.current_of_active (openRun_active s event)

theorem tasks_openRun_perm (s : Sequencer) (event : Event) :
    (s.openRun event).2.tasks.Perm s.tasks :=
  tasks_wakeCancelled_perm _

@[simp] theorem steps_openRun (s : Sequencer) (event : Event) :
    (s.openRun event).2.steps = s.steps :=
  steps_note rfl _

/-! ## The calls -/

/-- A trigger finds no script and changes nothing, or opens a run and starts its scripts. -/
theorem start_cases (s : Sequencer) (event : Event) :
    (s.program.scriptsFor event = [] ∧ s.start event = (none, s)) ∨
    (s.program.scriptsFor event ≠ [] ∧
      s.start event = (some (s.runs.lastRun + 1),
        (s.openRun event).2.startScripts (s.openRun event).1 (s.openRun event).2.runs.epoch
          (s.program.scriptsFor event) 0)) := by
  unfold start
  split
  · rename_i h
    exact .inl ⟨h, rfl⟩
  · rename_i h
    refine .inr ⟨h, ?_⟩
    rw [← openRun_id s event]

/-- The run control does nothing while something is playing, and triggers the flag otherwise. -/
theorem run_cases (s : Sequencer) :
    (s.isPlaying = true ∧ s.run = (none, s)) ∨
    (s.isPlaying = false ∧ s.run = s.start .flagClicked) := by
  unfold run
  cases s.isPlaying with
  | true => exact .inl ⟨rfl, rfl⟩
  | false => exact .inr ⟨rfl, rfl⟩

/-- An undo only cancels the run when there is no snapshot, and brings back the newest one
otherwise. -/
theorem undo_cases (s : Sequencer) :
    (s.store.history = [] ∧ s.undo = (false, s.cancelCurrent)) ∨
    (∃ entry older, s.store.history = entry :: older ∧
      s.undo = (true,
        { s.cancelCurrent with
          store := { s.store with history := older }.restore entry }.note (.undone s.now))) := by
  have hstore : s.cancelCurrent.store = s.store := rfl
  unfold undo
  dsimp only
  rw [hstore]
  cases h : s.store.history with
  | nil =>
      rw [Store.pop_of_nil h]
      exact .inl ⟨rfl, rfl⟩
  | cons entry older =>
      rw [Store.pop_of_cons h]
      exact .inr ⟨entry, older, rfl, rfl⟩

/-- A call starts scripts, as a trigger or the run control does, or undoes, or resets, or leaves runs,
tasks, sprite and journal as they are. -/
theorem call_cases (s : Sequencer) (c : Call) :
    (∃ event, (s.call c).2 = (s.start event).2) ∨ (s.call c).2 = s.undo.2 ∨
      (s.call c).2 = s.reset ∨
      ∃ pointer bounds program, (s.call c).2 = { s with pointer, bounds, program } := by
  cases c with
  | start event => exact .inl ⟨event, rfl⟩
  | run =>
      have hcall : (s.call .run).2 = s.run.2 := rfl
      rw [hcall]
      rcases run_cases s with ⟨-, heq⟩ | ⟨-, heq⟩ <;> rw [heq]
      · exact .inr (.inr (.inr ⟨s.pointer, s.bounds, s.program, rfl⟩))
      · exact .inl ⟨.flagClicked, rfl⟩
  | undo => exact .inr (.inl rfl)
  | reset => exact .inr (.inr (.inl rfl))
  | replaceProgram program => exact .inr (.inr (.inr ⟨s.pointer, s.bounds, program, rfl⟩))
  | recordPointer p =>
      exact .inr (.inr (.inr ⟨(s.pointer.record p s.instant).2, s.bounds, s.program, rfl⟩))
  | readPointer =>
      exact .inr (.inr (.inr ⟨(s.pointer.read s.instant).2, s.bounds, s.program, rfl⟩))
  | recordDrawn p => exact .inr (.inr (.inr ⟨s.pointer, s.bounds.record p, s.program, rfl⟩))

/-- No call takes time or touches the settings. -/
theorem call_settings (s : Sequencer) (c : Call) :
    (s.call c).2.timing = s.timing ∧ (s.call c).2.lag = s.lag ∧ (s.call c).2.now = s.now := by
  rcases call_cases s c with ⟨event, heq⟩ | heq | heq | ⟨_, _, _, heq⟩ <;> rw [heq]
  · rcases start_cases s event with ⟨-, heq⟩ | ⟨-, heq⟩ <;> rw [heq]
    · exact ⟨rfl, rfl, rfl⟩
    · have hframe := startScripts_frame (s.openRun event).2 (s.openRun event).1
        (s.openRun event).2.runs.epoch (s.program.scriptsFor event) 0
      simp only [frame, Prod.mk.injEq] at hframe
      obtain ⟨-, -, htiming, -, -, hnow, hlag⟩ := hframe
      exact ⟨htiming, hlag, hnow⟩
  · rcases undo_cases s with ⟨-, heq⟩ | ⟨_, _, -, heq⟩ <;> rw [heq] <;> exact ⟨rfl, rfl, rfl⟩
  · exact ⟨rfl, rfl, rfl⟩
  · exact ⟨rfl, rfl, rfl⟩

/-! ## Moves -/

theorem move_timing (s : Sequencer) (m : Move) :
    (s.move m).timing = s.timing ∧ (s.move m).lag = s.lag := by
  cases m with
  | call c => exact ⟨(call_settings s c).1, (call_settings s c).2.1⟩
  | turn place dueFirst =>
      have hframe := turnAt_frame s place dueFirst
      simp only [frame, Prod.mk.injEq] at hframe
      obtain ⟨-, -, htiming, -, -, -, hlag⟩ := hframe
      exact ⟨htiming, hlag⟩
  | pass ms => exact ⟨rfl, rfl⟩
  | rejoin => exact ⟨rfl, rfl⟩

@[simp] theorem move_stepTime (s : Sequencer) (m : Move) : (s.move m).stepTime = s.stepTime := by
  obtain ⟨htiming, hlag⟩ := move_timing s m
  unfold stepTime sleepTime
  rw [htiming, hlag]

@[simp] theorem moves_stepTime (s : Sequencer) (ms : List Move) :
    (s.moves ms).stepTime = s.stepTime := by
  induction ms generalizing s with
  | nil => rfl
  | cons m ms ih => rw [moves_cons, ih, move_stepTime]

theorem now_le_move (s : Sequencer) (m : Move) : s.now ≤ (s.move m).now := by
  cases m with
  | call c => exact Nat.le_of_eq (call_settings s c).2.2.symm
  | turn place dueFirst => exact Nat.le_of_eq (now_of_frame (turnAt_frame s place dueFirst)).symm
  | pass ms => exact Nat.le_add_right _ _
  | rejoin => exact Nat.le_refl _

end SpriteStage.Sequencer
