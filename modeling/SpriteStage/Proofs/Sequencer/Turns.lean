import SpriteStage.Proofs.Sequencer.Tasks

/-!
# What a turn leaves alone

A turn changes the sprite, the random numbers, the tasks and the journal; which run goes on, the
program and the settings are not its business. `walk_induction` is the rule for facts about a turn of
a walker: one of its premises for each thing a walker can do next.
-/

namespace SpriteStage.Sequencer

/-- What no turn changes. -/
def frame (s : Sequencer) : Runs × Program × Timing × StageSettings × Bounds × Nat × Nat :=
  (s.runs, s.program, s.timing, s.stage, s.bounds, s.now, s.lag)

@[simp] theorem dispatch_frame (s : Sequencer) (run : Stamp) (script : Nat) (a : Action) :
    (s.dispatch run script a).frame = s.frame := rfl

@[simp] theorem sleep_frame (s : Sequencer) (work : Work) (due : Nat) :
    (s.sleep work due).frame = s.frame := rfl

@[simp] theorem yield_frame (s : Sequencer) (work : Work) : (s.yield work).frame = s.frame := rfl

@[simp] theorem spawn_frame (s : Sequencer) (work : Work) : (s.spawn work).frame = s.frame := rfl

@[simp] theorem fire_frame (s : Sequencer) (c : Clear) : (s.fire c).frame = s.frame := rfl

@[simp] theorem enter_frame (s : Sequencer) (epoch : Nat) : (s.enter epoch).frame = s.frame := by
  unfold enter
  split <;> rfl

@[simp] theorem leave_frame (s : Sequencer) (epoch : Nat) : (s.leave epoch).frame = s.frame := by
  unfold leave
  split <;> rfl

theorem runs_of_frame {s s' : Sequencer} (h : s'.frame = s.frame) : s'.runs = s.runs :=
  congrArg Prod.fst h

theorem now_of_frame {s s' : Sequencer} (h : s'.frame = s.frame) : s'.now = s.now :=
  congrArg (·.2.2.2.2.2.1) h

theorem stepTime_of_frame {s s' : Sequencer} (h : s'.frame = s.frame) :
    s'.stepTime = s.stepTime := by
  simp only [frame, Prod.mk.injEq] at h
  simp only [stepTime, sleepTime, h]

theorem isCancelled_of_frame {s s' : Sequencer} (h : s'.frame = s.frame) (work : Work) :
    s'.isCancelled work = s.isCancelled work := by
  unfold isCancelled
  rw [runs_of_frame h]

/-- A walker executes actions as long as there is no delay, and then ends, falls asleep or yields.
`P` is what holds while it has its turn, with the actions that are left. -/
theorem walk_induction {w : Walker} {P : Sequencer → List Action → Prop} {Q : Sequencer → Prop}
    (step : ∀ s a rest, s.stepTime = 0 → P s (a :: rest) →
      P (s.dispatch w.run w.script a) rest)
    (ends : ∀ s, P s [] → Q (s.leave w.epoch))
    (sleeps : ∀ s a rest, s.stepTime ≠ 0 → P s (a :: rest) →
      Q (s.sleep (.walk { w with rest := a :: rest }) (s.now + s.stepTime)))
    (yields : ∀ s a rest, s.stepTime = 0 → P s (a :: rest) →
      Q (s.yield (.walk { w with rest := a :: rest })))
    (s : Sequencer) (left : Nat) (rest : List Action) (h : P s rest) : Q (s.walk w left rest) := by
  induction rest generalizing s left with
  | nil =>
      unfold walk
      exact ends s h
  | cons a rest ih =>
      unfold walk
      split
      · rename_i delay
        exact sleeps s a rest delay h
      · rename_i delay
        have delay : s.stepTime = 0 := Decidable.of_not_not delay
        cases left with
        | zero => exact yields s a rest delay h
        | succ left => exact ih _ left (step s a rest delay h)

/-- The same for a whole turn of a walker that was not cancelled: before it walks on, it may execute
the step that it slept for, or be too early for it. -/
theorem walkerTurn_induction_of_due {w : Walker} {P : Sequencer → List Action → Prop}
    {Q : Sequencer → Prop} {s : Sequencer} {due : Option Nat}
    (step : ∀ s a rest, s.stepTime = 0 → P s (a :: rest) →
      P (s.dispatch w.run w.script a) rest)
    (ends : ∀ s, P s [] → Q (s.leave w.epoch))
    (sleeps : ∀ s a rest, s.stepTime ≠ 0 → P s (a :: rest) →
      Q (s.sleep (.walk { w with rest := a :: rest }) (s.now + s.stepTime)))
    (yields : ∀ s a rest, s.stepTime = 0 → P s (a :: rest) →
      Q (s.yield (.walk { w with rest := a :: rest })))
    (live : s.isCancelled (.walk w) = false)
    (begins : (∀ d, due = some d → w.rest = []) → P s w.rest)
    (wakes : ∀ a rest d, due = some d → d ≤ s.now → w.rest = a :: rest →
      P (s.dispatch w.run w.script a) rest)
    (early : ∀ d, due = some d → s.now < d → Q (s.sleep (.walk w) d)) :
    Q (s.walkerTurn w due) := by
  have walks := walk_induction step ends sleeps yields
  have live : ¬ s.runs.scopes.isCancelled w.scope = true := by
    simpa [isCancelled, Work.scope] using live
  unfold walkerTurn
  rw [if_neg live]
  cases due with
  | none => exact walks s _ _ (begins nofun)
  | some d =>
      cases hrest : w.rest with
      | nil => exact walks s _ _ (hrest ▸ begins fun _ _ => hrest)
      | cons a rest =>
          simp only
          split
          · rename_i hd
            exact walks _ _ _ (wakes a rest d rfl hd hrest)
          · rename_i hd
            exact early d rfl (Nat.lt_of_not_le hd)

/-- The same for what holds of a walker at the start of its turn whether it slept or not. -/
theorem walkerTurn_induction {w : Walker} {P : Sequencer → List Action → Prop}
    {Q : Sequencer → Prop} {s : Sequencer} {due : Option Nat}
    (step : ∀ s a rest, s.stepTime = 0 → P s (a :: rest) →
      P (s.dispatch w.run w.script a) rest)
    (ends : ∀ s, P s [] → Q (s.leave w.epoch))
    (sleeps : ∀ s a rest, s.stepTime ≠ 0 → P s (a :: rest) →
      Q (s.sleep (.walk { w with rest := a :: rest }) (s.now + s.stepTime)))
    (yields : ∀ s a rest, s.stepTime = 0 → P s (a :: rest) →
      Q (s.yield (.walk { w with rest := a :: rest })))
    (live : s.isCancelled (.walk w) = false) (begins : P s w.rest)
    (wakes : ∀ a rest d, due = some d → d ≤ s.now → w.rest = a :: rest →
      P (s.dispatch w.run w.script a) rest)
    (early : ∀ d, due = some d → s.now < d → Q (s.sleep (.walk w) d)) :
    Q (s.walkerTurn w due) :=
  walkerTurn_induction_of_due step ends sleeps yields live (fun _ => begins) wakes early

theorem walkerTurn_of_cancelled {s : Sequencer} {w : Walker} {due : Option Nat}
    (h : s.isCancelled (.walk w) = true) : s.walkerTurn w due = s.leave w.epoch := by
  unfold walkerTurn
  exact if_pos h

/-- A turn of a clear ends it, fires it or lets it sleep until a later instant. -/
theorem clearTurn_cases (dueFirst : Bool) (s : Sequencer) (c : Clear) (due : Option Nat) :
    (s.clearTurn dueFirst c due = s ∧ s.isCancelled (.clear c) = true) ∨
    (s.clearTurn dueFirst c due = s.fire c ∧ due.getD (s.now + s.sleepTime c.time) ≤ s.now) ∨
    (s.isCancelled (.clear c) = false ∧ s.now < due.getD (s.now + s.sleepTime c.time) ∧
      s.clearTurn dueFirst c due =
        s.sleep (.clear c) (due.getD (s.now + s.sleepTime c.time))) := by
  unfold clearTurn
  dsimp only
  split
  · rename_i h
    rw [Bool.and_eq_true] at h
    exact .inl ⟨rfl, h.1⟩
  · rename_i h
    split
    · rename_i hdue
      exact .inr (.inl ⟨rfl, hdue⟩)
    · rename_i hdue
      refine .inr (.inr ⟨?_, Nat.lt_of_not_le hdue, rfl⟩)
      simpa [isCancelled, Work.scope, hdue] using h

/-- The turn of a clear whose run does not own the slot. -/
theorem clearTurn_store {s : Sequencer} {c : Clear} (h : s.store.owns c.slot c.run = false)
    (dueFirst : Bool) (due : Option Nat) : (s.clearTurn dueFirst c due).store = s.store := by
  rcases clearTurn_cases dueFirst s c due with ⟨heq, -⟩ | ⟨heq, -⟩ | ⟨-, -, heq⟩ <;> rw [heq]
  · exact Store.clear_of_not_owns h
  · rfl

@[simp] theorem walkerTurn_frame (s : Sequencer) (w : Walker) (due : Option Nat) :
    (s.walkerTurn w due).frame = s.frame := by
  cases live : s.isCancelled (.walk w) with
  | true => rw [walkerTurn_of_cancelled live, leave_frame]
  | false =>
      refine walkerTurn_induction (P := fun s' _ => s'.frame = s.frame)
        (Q := fun s' => s'.frame = s.frame) ?_ ?_ ?_ ?_ live rfl ?_ ?_ <;> intros <;>
        simp only [dispatch_frame, leave_frame, sleep_frame, yield_frame] <;> assumption

@[simp] theorem turn_frame (dueFirst : Bool) (s : Sequencer) (t : Ready) :
    (s.turn dueFirst t).frame = s.frame := by
  unfold turn
  split
  · exact walkerTurn_frame s _ _
  · rename_i c _
    rcases clearTurn_cases dueFirst s c t.due with ⟨h, -⟩ | ⟨h, -⟩ | ⟨-, -, h⟩ <;> rw [h]
    · exact fire_frame s c
    · exact sleep_frame s _ _

@[simp] theorem turnAt_frame (s : Sequencer) (place : Nat) (dueFirst : Bool) :
    (s.turnAt place dueFirst).frame = s.frame := by
  cases h : s.ready[place]? with
  | none => rw [turnAt_of_none h]
  | some t =>
      rw [turnAt_of_some h, turn_frame]
      rfl

/-- A turn at a place of the queue is that of a walker, or ends, fires or lets sleep a clear, or is no
turn at all. -/
theorem turnAt_induction {s : Sequencer} {place : Nat} {dueFirst : Bool} {Q : Sequencer → Prop}
    (beyond : s.ready[place]? = none → Q s)
    (walks : ∀ w due, s.ready[place]? = some ⟨.walk w, due⟩ → Q ((s.without place).walkerTurn w due))
    (ends : ∀ c due, s.ready[place]? = some ⟨.clear c, due⟩ → Q (s.without place))
    (fires : ∀ c due, s.ready[place]? = some ⟨.clear c, due⟩ → Q ((s.without place).fire c))
    (sleeps : ∀ c due d, s.ready[place]? = some ⟨.clear c, due⟩ → s.isCancelled (.clear c) = false →
      s.now < d → Q ((s.without place).sleep (.clear c) d)) :
    Q (s.turnAt place dueFirst) := by
  cases ht : s.ready[place]? with
  | none =>
      rw [turnAt_of_none ht]
      exact beyond ht
  | some t =>
      obtain ⟨work, due⟩ := t
      rw [turnAt_of_some ht]
      cases work with
      | walk w => exact walks w due ht
      | clear c =>
          show Q ((s.without place).clearTurn dueFirst c due)
          rcases clearTurn_cases dueFirst (s.without place) c due with
            ⟨h, -⟩ | ⟨h, -⟩ | ⟨hlive, hdue, h⟩ <;> rw [h]
          · exact ends c due ht
          · exact fires c due ht
          · exact sleeps c due _ ht hlive hdue

/-- With a delay no walker yields. -/
theorem walkerTurn_yielded {s : Sequencer} (hdelay : s.stepTime ≠ 0) (w : Walker)
    (due : Option Nat) : (s.walkerTurn w due).yielded = s.yielded := by
  have hleave (s : Sequencer) (epoch : Nat) : (s.leave epoch).yielded = s.yielded := by
    unfold leave
    split <;> rfl
  cases live : s.isCancelled (.walk w) with
  | true => rw [walkerTurn_of_cancelled live, hleave]
  | false =>
      refine walkerTurn_induction
        (P := fun s' _ => s'.frame = s.frame ∧ s'.yielded = s.yielded)
        (Q := fun s' => s'.yielded = s.yielded) ?_ ?_ ?_ ?_ live ⟨rfl, rfl⟩ ?_ ?_
      · rintro s' a rest - h
        exact h
      · rintro s' ⟨-, h⟩
        rw [hleave, h]
      · rintro s' a rest - ⟨-, h⟩
        exact h
      · rintro s' a rest hnone ⟨hframe, -⟩
        rw [stepTime_of_frame hframe] at hnone
        exact absurd hnone hdelay
      · intro a rest d _ _ _
        exact ⟨rfl, rfl⟩
      · intro d _ _
        rfl

theorem turnAt_yielded {s : Sequencer} (hdelay : s.stepTime ≠ 0) (place : Nat) (dueFirst : Bool) :
    (s.turnAt place dueFirst).yielded = s.yielded := by
  refine turnAt_induction (Q := fun s' => s'.yielded = s.yielded) ?_ ?_ ?_ ?_ ?_
  · intro _
    rfl
  · intro w due _
    exact walkerTurn_yielded (s := s.without place) hdelay w due
  · intro c due _
    rfl
  · intro c due _
    rfl
  · intro c due d _ _ _
    rfl

/-! ## The steps that were executed -/

def stepOf (s : Sequencer) (run : Stamp) (script : Nat) (a : Action) : Step :=
  ⟨s.now, run, script, a, s.scene, (s.outcome a).effect⟩

theorem steps_dispatch (s : Sequencer) (run : Stamp) (script : Nat) (a : Action) :
    (s.dispatch run script a).steps = s.steps ++ [s.stepOf run script a] := by
  simp only [steps, dispatch, List.reverse_cons, List.filterMap_append]
  rfl

theorem steps_note {n : Note} (h : n.step? = none) (s : Sequencer) :
    (s.note n).steps = s.steps := by
  simp only [steps, note, List.reverse_cons, List.filterMap_append, List.filterMap_cons, h,
    List.filterMap_nil, List.append_nil]

@[simp] theorem steps_fire (s : Sequencer) (c : Clear) : (s.fire c).steps = s.steps :=
  steps_note rfl s

@[simp] theorem steps_sleep (s : Sequencer) (work : Work) (due : Nat) :
    (s.sleep work due).steps = s.steps := rfl

@[simp] theorem steps_spawn (s : Sequencer) (work : Work) : (s.spawn work).steps = s.steps := rfl

@[simp] theorem steps_enter (s : Sequencer) (epoch : Nat) : (s.enter epoch).steps = s.steps := by
  unfold enter
  split <;> rfl

@[simp] theorem steps_leave (s : Sequencer) (epoch : Nat) : (s.leave epoch).steps = s.steps := by
  unfold leave
  split <;> rfl

end SpriteStage.Sequencer
