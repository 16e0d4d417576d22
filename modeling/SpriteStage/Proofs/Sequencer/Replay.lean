import SpriteStage.Proofs.Sequencer.Steps

/-!
# Replaying steps

Where the sprite is, how it is turned and how large it is come of the steps that were executed, and of
nothing else but undo and reset: timed clears reset only the bubble and the animation. Executed again
one after the other, the steps that a schedule added lead from the pose and the random numbers before
it to those after it.
-/

namespace SpriteStage

/-- The part of the sprite that no timed clear resets. -/
structure Pose where
  position : Point
  rotation : Float
  size : Float

def Motion.pose (m : Motion) : Pose := ⟨m.position, m.rotation, m.size⟩

def Pose.motion (p : Pose) : Motion := ⟨p.position, p.rotation, none, Bubble.hidden, p.size⟩

/-- Executes the action of a step again, with the pointer and the bounds that it found, and with the
random numbers given. -/
def Step.replay (before : Pose × Generator) (step : Step) : Pose × Generator :=
  let outcome := step.action.apply before.1.motion { step.scene with generator := before.2 }
  (outcome.motion.pose, outcome.generator)

/-- What comes of the pose and of the random numbers does not depend on bubble and animation. -/
theorem apply_pose (a : Action) {m m' : Motion} (h : m.pose = m'.pose) (ctx : Scene) :
    ((a.apply m ctx).motion.pose, (a.apply m ctx).generator) =
      ((a.apply m' ctx).motion.pose, (a.apply m' ctx).generator) := by
  obtain ⟨position, rotation, animation, text, size⟩ := m
  obtain ⟨position', rotation', animation', text', size'⟩ := m'
  obtain ⟨rfl, rfl, rfl⟩ := Pose.mk.inj h
  cases a with
  | pointTowards target => cases target <;> rfl
  | _ => rfl

theorem Store.pose_clear (s : Store) (slot : Slot) (stamp : Stamp) :
    (s.clear slot stamp).motion.pose = s.motion.pose := by
  cases slot
  · show (s.clearText stamp).motion.pose = _
    unfold clearText
    split <;> rfl
  · show (s.clearAnimation stamp).motion.pose = _
    unfold clearAnimation
    split <;> rfl

namespace Sequencer

def pose (s : Sequencer) : Pose := s.store.motion.pose

/-- The steps that were added lead from the one state to the other. -/
def Replays (s s' : Sequencer) : Prop :=
  ∃ new, s'.steps = s.steps ++ new ∧
    new.foldl Step.replay (s.pose, s.generator) = (s'.pose, s'.generator)

namespace Replays

variable {s s' s'' : Sequencer}

theorem of_eq (hsteps : s'.steps = s.steps) (hpose : s'.pose = s.pose)
    (hgenerator : s'.generator = s.generator) : Replays s s' := by
  refine ⟨[], by rw [hsteps, List.append_nil], ?_⟩
  rw [List.foldl_nil, hpose, hgenerator]

theorem trans (h : Replays s s') (h' : Replays s' s'') : Replays s s'' := by
  obtain ⟨new, hsteps, hfold⟩ := h
  obtain ⟨new', hsteps', hfold'⟩ := h'
  refine ⟨new ++ new', by rw [hsteps', hsteps, List.append_assoc], ?_⟩
  rw [List.foldl_append, hfold, hfold']

theorem dispatch (s : Sequencer) (run : Stamp) (script : Nat) (a : Action) :
    Replays s (s.dispatch run script a) := by
  refine ⟨[s.stepOf run script a], steps_dispatch s run script a, ?_⟩
  have hpose : s.pose.motion.pose = s.store.motion.pose := rfl
  rw [List.foldl_cons, List.foldl_nil]
  exact apply_pose a hpose s.scene

theorem leave (s : Sequencer) (epoch : Nat) : Replays s (s.leave epoch) := by
  unfold Sequencer.leave
  split <;> exact of_eq rfl rfl rfl

theorem walkerTurn (s : Sequencer) (w : Walker) (due : Option Nat) :
    Replays s (s.walkerTurn w due) := by
  cases live : s.isCancelled (.walk w) with
  | true =>
      rw [walkerTurn_of_cancelled live]
      exact leave s w.epoch
  | false =>
      refine walkerTurn_induction (P := fun s' _ => Replays s s') (Q := fun s' => Replays s s')
        ?_ ?_ ?_ ?_ live (of_eq rfl rfl rfl) ?_ ?_
      · intro s' a _ _ h
        exact h.trans (dispatch s' _ _ a)
      · intro s' h
        exact h.trans (leave s' _)
      · intro _ _ _ _ h
        exact h
      · intro _ _ _ _ h
        exact h
      · intro a _ _ _ _ _
        exact dispatch s _ _ a
      · intro _ _ _
        exact of_eq rfl rfl rfl

theorem turnAt (s : Sequencer) (place : Nat) (dueFirst : Bool) :
    Replays s (s.turnAt place dueFirst) := by
  have hwithout : Replays s (s.without place) := of_eq rfl rfl rfl
  refine turnAt_induction (Q := Replays s) ?_ ?_ ?_ ?_ ?_
  · intro _
    exact of_eq rfl rfl rfl
  · intro w due _
    exact hwithout.trans (walkerTurn _ w due)
  · intro c due _
    exact hwithout
  · intro c due _
    exact hwithout.trans (of_eq (steps_fire _ c) (Store.pose_clear _ _ _) rfl)
  · intro c due d _ _ _
    exact of_eq rfl rfl rfl

theorem startScripts (s : Sequencer) (run : ActiveRun) (epoch : Nat) (scripts : List Script)
    (place : Nat) : Replays s (s.startScripts run epoch scripts place) := by
  induction scripts generalizing s place with
  | nil => exact of_eq rfl rfl rfl
  | cons script scripts ih =>
      rw [startScripts_cons]
      refine Replays.trans ?_ (ih _ (place + 1))
      unfold startScript
      dsimp only
      split
      · exact dispatch s _ _ _
      · refine (dispatch s run.id place script.head).trans (of_eq ?_ ?_ ?_)
        · rw [steps_spawn, steps_enter]
        · unfold Sequencer.enter
          split <;> rfl
        · unfold Sequencer.enter
          split <;> rfl

theorem start (s : Sequencer) (event : Event) : Replays s (s.start event).2 := by
  rcases start_cases s event with ⟨-, heq⟩ | ⟨-, heq⟩ <;> rw [heq]
  · exact of_eq rfl rfl rfl
  · have hopen : Replays s (s.openRun event).2 := of_eq (steps_openRun s event) rfl rfl
    exact hopen.trans (startScripts _ _ _ _ _)

/-- All moves but undo and reset, after which no run goes on, replay. -/
theorem move {run : Stamp} {m : Move} (hcurrent : (s.move m).current = some run) :
    Replays s (s.move m) := by
  cases m with
  | call c =>
      rw [move_call] at hcurrent ⊢
      rcases call_cases s c with ⟨event, heq⟩ | heq | heq | ⟨_, _, _, heq⟩ <;>
        rw [heq] at hcurrent ⊢
      · exact start s event
      · rw [undo_current] at hcurrent
        cases hcurrent
      · rw [reset_current] at hcurrent
        cases hcurrent
      · exact of_eq rfl rfl rfl
  | turn place dueFirst => exact turnAt s place dueFirst
  | pass ms => exact of_eq rfl rfl rfl
  | rejoin => exact of_eq rfl rfl rfl

end Replays

/-- As long as a run goes on, what was added are steps of its own, and they replay. -/
theorem moves_replay {s : Sequencer} {run : Stamp} (hs : s.WellFormed)
    (hle : run ≤ s.runs.lastRun) {ms : List Move} (hcurrent : (s.moves ms).current = some run) :
    ∃ new, (s.moves ms).steps = s.steps ++ new ∧ (∀ step ∈ new, step.run = run) ∧
      new.foldl Step.replay (s.pose, s.generator) = ((s.moves ms).pose, (s.moves ms).generator) := by
  induction ms generalizing s with
  | nil => exact ⟨[], (List.append_nil _).symm, by simp, rfl⟩
  | cons m ms ih =>
      have hle' := Nat.le_trans hle (move_lastRun_le s m)
      have hnext := current_of_moves (hs.move m) hle' hcurrent
      obtain ⟨first, hfirst, hfold⟩ := Replays.move hnext
      obtain ⟨first', hfirst', hrun⟩ := move_executes hs m
      obtain rfl : first = first' := List.append_cancel_left (hfirst.symm.trans hfirst')
      obtain ⟨later, hlater, hrun', hfold'⟩ := ih (hs.move m) hle' hcurrent
      refine ⟨first ++ later, ?_, ?_, ?_⟩
      · rw [moves_cons, hlater, hfirst, List.append_assoc]
      · intro step hstep
        rcases List.mem_append.mp hstep with hstep | hstep
        · have hown := hrun step hstep
          rw [hnext] at hown
          exact (Option.some.inj hown).symm
        · exact hrun' step hstep
      · rw [List.foldl_append, hfold, hfold', moves_cons]

end Sequencer

end SpriteStage
