import Mathlib.Data.List.Perm.Basic
import SpriteStage.Proofs.Sequencer.Lines

/-!
# The walkers in flight

`inFlight` counts the walkers among the tasks that were begun since the last reset. A walker that has
its turn is counted until it ends. When none was in flight at a trigger, all that are in flight
later, as long as the run goes on, are walkers of that run.
-/

namespace SpriteStage

def Work.isOf (work : Work) (epoch : Nat) : Bool :=
  match work with
  | .walk w => decide (w.epoch = epoch)
  | .clear _ => false

namespace Sequencer

def walkersIn (s : Sequencer) (epoch : Nat) : Nat := s.tasks.countP fun t => t.work.isOf epoch

def Counted (s : Sequencer) : Prop := s.inFlight = s.walkersIn s.runs.epoch

variable {s s' : Sequencer} {epoch : Nat}

theorem walkersIn_perm (h : s'.tasks.Perm s.tasks) : s'.walkersIn epoch = s.walkersIn epoch :=
  h.countP_eq _

theorem walkersIn_add {t : Ready} (h : s'.tasks.Perm (t :: s.tasks)) :
    s'.walkersIn epoch = s.walkersIn epoch + if t.work.isOf epoch then 1 else 0 := by
  unfold walkersIn
  rw [h.countP_eq, List.countP_cons]

theorem walkersIn_dispatch (s : Sequencer) (run : Stamp) (script : Nat) (a : Action) :
    (s.dispatch run script a).walkersIn epoch = s.walkersIn epoch := by
  have hclears : (s.clearsOf run a).countP (fun t => t.work.isOf epoch) = 0 := by
    rw [List.countP_eq_zero]
    intro t ht
    obtain ⟨c, rfl, -, -⟩ := mem_clearsOf ht
    exact Bool.false_ne_true
  unfold walkersIn
  rw [(s.tasks_dispatch_perm run script a).countP_eq, List.countP_append, hclears, Nat.zero_add]

theorem enter_inFlight (h : epoch = s.runs.epoch) : (s.enter epoch).inFlight = s.inFlight + 1 := by
  unfold enter
  rw [if_pos h]

/-! ## Turns -/

/-- A walker in its turn is counted, but not among the tasks. -/
def CountedBeside (s : Sequencer) (w : Walker) : Prop :=
  s.inFlight = s.walkersIn s.runs.epoch + if w.epoch = s.runs.epoch then 1 else 0

namespace CountedBeside

variable {w : Walker}

theorem dispatch (h : s.CountedBeside w) (a : Action) :
    (s.dispatch w.run w.script a).CountedBeside w := by
  unfold CountedBeside
  rw [walkersIn_dispatch]
  exact h

theorem leave (h : s.CountedBeside w) : (s.leave w.epoch).Counted := by
  have hruns := runs_of_frame (leave_frame s w.epoch)
  have htasks : (s.leave w.epoch).walkersIn s.runs.epoch = s.walkersIn s.runs.epoch :=
    walkersIn_perm (by rw [tasks_leave])
  unfold CountedBeside at h
  unfold Counted
  rw [hruns, htasks]
  unfold Sequencer.leave
  split <;> rename_i hepoch
  · rw [if_pos hepoch] at h
    show s.inFlight - 1 = _
    omega
  · rwa [if_neg hepoch] at h

/-- The walker stays a task. -/
theorem stay (h : s.CountedBeside w) {t : Ready} {rest : List Action}
    (ht : t.work = .walk { w with rest }) (hinFlight : s'.inFlight = s.inFlight)
    (hruns : s'.runs = s.runs) (htasks : s'.tasks.Perm (t :: s.tasks)) : s'.Counted := by
  unfold CountedBeside at h
  unfold Counted
  rw [hinFlight, hruns, walkersIn_add htasks, ht]
  simpa [Work.isOf] using h

theorem walkerTurn (h : s.CountedBeside w) (due : Option Nat) : (s.walkerTurn w due).Counted := by
  cases live : s.isCancelled (.walk w) with
  | true =>
      rw [walkerTurn_of_cancelled live]
      exact h.leave
  | false =>
      refine walkerTurn_induction (P := fun s' _ => s'.CountedBeside w) (Q := Counted)
        ?_ ?_ ?_ ?_ live h ?_ ?_
      · intro s' a _ _ h
        exact h.dispatch a
      · intro s' h
        exact h.leave
      · intro s' a rest _ h
        exact h.stay rfl rfl rfl (tasks_sleep_perm s' _ _)
      · intro s' a rest _ h
        exact h.stay rfl rfl rfl (tasks_yield_perm s' _)
      · intro a _ _ _ _ _
        exact h.dispatch a
      · intro d _ _
        exact h.stay rfl rfl rfl (tasks_sleep_perm s (.walk w) d)

end CountedBeside

namespace Counted

theorem of_perm (h : s.Counted) (hinFlight : s'.inFlight = s.inFlight)
    (hepoch : s'.runs.epoch = s.runs.epoch) (htasks : s'.tasks.Perm s.tasks) : s'.Counted := by
  unfold Counted
  rw [hinFlight, hepoch, walkersIn_perm htasks]
  exact h

theorem turnAt (h : s.Counted) (place : Nat) (dueFirst : Bool) :
    (s.turnAt place dueFirst).Counted := by
  have hwithout {t : Ready} (ht : s.ready[place]? = some t) : s.inFlight =
      (s.without place).walkersIn s.runs.epoch + if t.work.isOf s.runs.epoch then 1 else 0 :=
    h.trans (walkersIn_add (tasks_without_perm ht))
  -- a clear does not count
  have hclear {c : Clear} {due : Option Nat} (ht : s.ready[place]? = some ⟨.clear c, due⟩) :
      (s.without place).Counted := hwithout ht
  apply turnAt_induction
  · intro _
    exact h
  · intro w due ht
    have hbeside : (s.without place).CountedBeside w := by
      have hcount := hwithout ht
      show s.inFlight = (s.without place).walkersIn s.runs.epoch +
        if w.epoch = s.runs.epoch then 1 else 0
      simpa [Work.isOf] using hcount
    exact hbeside.walkerTurn due
  · intro c due ht
    exact hclear ht
  · intro c due ht
    exact (hclear ht).of_perm rfl rfl (List.Perm.refl _)
  · intro c due d ht _ _
    unfold Counted
    rw [show ((s.without place).sleep (.clear c) d).runs = s.runs from rfl,
      walkersIn_add (tasks_sleep_perm (s.without place) (.clear c) d)]
    exact hclear ht

/-! ## Calls -/

theorem startScript (h : s.Counted) (hepoch : epoch = s.runs.epoch) (run : ActiveRun)
    (script : Script × Nat) : (s.startScript run epoch script).Counted := by
  have hdispatch : (s.dispatch run.id script.2 script.1.head).Counted := by
    unfold Counted
    rw [walkersIn_dispatch]
    exact h
  unfold Sequencer.startScript
  dsimp only
  split
  · exact hdispatch
  · have hspawn := tasks_spawn_perm ((s.dispatch run.id script.2 script.1.head).enter epoch)
      (.walk ⟨run.id, run.scope, epoch, script.2, script.1.rest⟩)
    rw [tasks_enter] at hspawn
    have hruns := runs_of_frame (enter_frame (s.dispatch run.id script.2 script.1.head) epoch)
    have hinFlight : ((s.dispatch run.id script.2 script.1.head).enter epoch).inFlight =
        s.inFlight + 1 := enter_inFlight hepoch
    unfold Counted at hdispatch ⊢
    show ((s.dispatch run.id script.2 script.1.head).enter epoch).inFlight =
      walkersIn _ ((s.dispatch run.id script.2 script.1.head).enter epoch).runs.epoch
    rw [hinFlight, hruns, walkersIn_add hspawn, ← hdispatch]
    simp [Work.isOf, hepoch, dispatch]

theorem startScripts (h : s.Counted) (hepoch : epoch = s.runs.epoch) (run : ActiveRun)
    (scripts : List Script) (place : Nat) :
    (s.startScripts run epoch scripts place).Counted := by
  induction scripts generalizing s place with
  | nil => exact h
  | cons script scripts ih =>
      have hruns := runs_of_frame (startScript_frame s run epoch (script, place))
      rw [startScripts_cons]
      exact ih (h.startScript hepoch run (script, place)) (by rw [hruns]; exact hepoch) (place + 1)

theorem start (h : s.Counted) (event : Event) : (s.start event).2.Counted := by
  rcases start_cases s event with ⟨-, heq⟩ | ⟨-, heq⟩ <;> rw [heq]
  · exact h
  · refine startScripts ?_ rfl _ _ _
    exact h.of_perm rfl (Runs.cancelActive_epoch s.runs) (tasks_openRun_perm s event)

/-- After a reset no walker is counted, and none is of the new epoch. -/
theorem reset (hs : s.WellFormed) : s.reset.Counted := by
  have hnone : s.reset.walkersIn s.reset.runs.epoch = 0 := by
    unfold walkersIn
    rw [List.countP_eq_zero]
    intro t ht
    have ht := s.tasks_reset_perm.mem_iff.mp ht
    have hfits := hs.fits t ht
    unfold Work.isOf
    cases hw : t.work with
    | clear c => exact Bool.false_ne_true
    | walk w =>
        rw [hw] at hfits
        have hle : w.epoch ≤ s.runs.epoch := hfits.epoch_le
        have hepoch : s.reset.runs.epoch = s.runs.epoch + 1 := rfl
        simp only [decide_eq_true_eq, hepoch]
        omega
  unfold Counted
  rw [hnone]
  rfl

theorem undo (h : s.Counted) : s.undo.2.Counted := by
  have hcancel : s.cancelCurrent.Counted :=
    h.of_perm rfl (Runs.cancelActive_epoch s.runs) (tasks_wakeCancelled_perm _)
  rcases undo_cases s with ⟨-, heq⟩ | ⟨_, _, -, heq⟩ <;> rw [heq] <;> exact hcancel

theorem move (h : s.Counted) (hs : s.WellFormed) (m : Move) : (s.move m).Counted := by
  cases m with
  | call c =>
      rw [move_call]
      rcases call_cases s c with ⟨event, heq⟩ | heq | heq | ⟨_, _, _, heq⟩ <;> rw [heq]
      · exact h.start event
      · exact h.undo
      · exact reset hs
      · exact h
  | turn place dueFirst => exact h.turnAt place dueFirst
  | pass ms => exact h.of_perm rfl rfl (tasks_wakeAt_perm s _)
  | rejoin => exact h.of_perm rfl rfl s.tasks_rejoin_perm

theorem moves (h : s.Counted) (hs : s.WellFormed) (ms : List Move) : (s.moves ms).Counted := by
  induction ms generalizing s with
  | nil => exact h
  | cons m ms ih => exact ih (h.move hs m) (hs.move m)

end Counted

/-- In every state that a sequencer comes to the walkers are counted. -/
theorem Reachable.counted (h : s.Reachable) : s.Counted := by
  induction h with
  | built s => rfl
  | move m hs ih => exact ih.move hs.wellFormed m

/-! ## Walkers come of walkers -/

/-- What a task may leave behind in its turn: clears, which are not due yet if they sleep, and its
walker, with less to do if it slept before, and asleep for a step delay if at all. -/
inductive Leaves (s : Sequencer) : Ready → Ready → Prop where
  | clear (t : Ready) (c : Clear) {due : Option Nat} (later : ∀ d, due = some d → s.now < d) :
      Leaves s t ⟨.clear c, due⟩
  | walker (w : Walker) {rest : List Action} {due due' : Option Nat} (more : rest ≠ [])
      (shorter : rest.length ≤ w.rest.length)
      (woken : ∀ d, due = some d → d ≤ s.now ∧ rest.length < w.rest.length)
      (delay : ∀ d, due' = some d → d = s.now + s.stepTime) :
      Leaves s ⟨.walk w, due⟩ ⟨.walk { w with rest }, due'⟩

/-- After a turn there are the tasks from before, and those that the task in its turn left. -/
theorem leaves_turnAt {place : Nat} {dueFirst : Bool} {t : Ready}
    (ht : t ∈ (s.turnAt place dueFirst).tasks) :
    t ∈ s.tasks ∨ ∃ u, s.ready[place]? = some u ∧ s.Leaves u t := by
  revert ht
  have hwithout {u : Ready} (hu : s.ready[place]? = some u) (ht : t ∈ (s.without place).tasks) :
      t ∈ s.tasks := (tasks_without_perm hu).mem_iff.mpr (List.mem_cons_of_mem u ht)
  refine turnAt_induction (Q := fun s' => t ∈ s'.tasks →
    t ∈ s.tasks ∨ ∃ u, s.ready[place]? = some u ∧ s.Leaves u t) ?_ ?_ ?_ ?_ ?_
  · intro _ ht
    exact .inl ht
  · intro w due hu
    cases live : (s.without place).isCancelled (.walk w) with
    | true =>
        rw [walkerTurn_of_cancelled live, tasks_leave]
        exact fun ht => .inl (hwithout hu ht)
    | false =>
        have hdispatch {s' : Sequencer} {a : Action}
            (h : t ∈ s'.tasks → t ∈ s.tasks ∨ ∃ u, s.ready[place]? = some u ∧ s.Leaves u t)
            (ht : t ∈ (s'.dispatch w.run w.script a).tasks) :
            t ∈ s.tasks ∨ ∃ u, s.ready[place]? = some u ∧ s.Leaves u t := by
          rcases List.mem_append.mp ((s'.tasks_dispatch_perm _ _ a).mem_iff.mp ht) with ht | ht
          · obtain ⟨c, rfl, -, -⟩ := mem_clearsOf ht
            exact .inr ⟨_, hu, .clear _ c nofun⟩
          · exact h ht
        -- while the walker has its turn, what it has left is shorter if it slept before
        refine walkerTurn_induction_of_due
          (P := fun s' rest => s'.frame = s.frame ∧
            (t ∈ s'.tasks → t ∈ s.tasks ∨ ∃ u, s.ready[place]? = some u ∧ s.Leaves u t) ∧
            rest.length ≤ w.rest.length ∧
            (rest ≠ [] → ∀ d, due = some d → d ≤ s.now ∧ rest.length < w.rest.length))
          (Q := fun s' => t ∈ s'.tasks →
            t ∈ s.tasks ∨ ∃ u, s.ready[place]? = some u ∧ s.Leaves u t) ?_ ?_ ?_ ?_ live ?_ ?_ ?_
        · rintro s' a rest - ⟨hframe, htasks, hlength, hwoken⟩
          refine ⟨hframe, hdispatch htasks, Nat.le_of_succ_le hlength, fun _ d hd => ?_⟩
          obtain ⟨hnow, hlt⟩ := hwoken (List.cons_ne_nil a rest) d hd
          exact ⟨hnow, Nat.lt_of_succ_lt hlt⟩
        · rintro s' ⟨-, htasks, -, -⟩
          rw [tasks_leave]
          exact htasks
        · rintro s' a rest - ⟨hframe, htasks, hlength, hwoken⟩ ht
          rcases List.mem_cons.mp ((tasks_sleep_perm s' _ _).mem_iff.mp ht) with rfl | ht
          · refine .inr ⟨_, hu, .walker w (List.cons_ne_nil a rest) hlength
              (hwoken (List.cons_ne_nil a rest)) ?_⟩
            rintro _ ⟨⟩
            rw [now_of_frame hframe, stepTime_of_frame hframe]
          · exact htasks ht
        · rintro s' a rest - ⟨hframe, htasks, hlength, hwoken⟩ ht
          rcases List.mem_cons.mp ((tasks_yield_perm s' _).mem_iff.mp ht) with rfl | ht
          · exact .inr ⟨_, hu, .walker w (List.cons_ne_nil a rest) hlength
              (hwoken (List.cons_ne_nil a rest)) nofun⟩
          · exact htasks ht
        · intro hnone
          refine ⟨rfl, fun ht => .inl (hwithout hu ht), Nat.le_refl _, fun hrest d hd => ?_⟩
          exact absurd (hnone d hd) hrest
        · intro a rest d hd hnow hrest
          have hlength : w.rest.length = rest.length + 1 := congrArg List.length hrest
          refine ⟨rfl, hdispatch fun ht => .inl (hwithout hu ht), by omega, fun _ d' hd' => ?_⟩
          obtain rfl := Option.some.inj (hd.symm.trans hd')
          exact ⟨hnow, by omega⟩
        · -- a walker that is too early sleeps again until the same instant
          rintro d rfl - ht
          left
          exact (tasks_without_perm hu).mem_iff.mpr ((tasks_sleep_perm _ _ d).mem_iff.mp ht)
  · intro c due hu ht
    exact .inl (hwithout hu ht)
  · intro c due hu ht
    exact .inl (hwithout hu ht)
  · intro c due d hu _ hd ht
    rcases List.mem_cons.mp ((tasks_sleep_perm _ _ d).mem_iff.mp ht) with rfl | ht
    · refine .inr ⟨_, hu, .clear _ c ?_⟩
      rintro _ ⟨⟩
      exact hd
    · exact .inl (hwithout hu ht)

/-- What is known of all tasks, of a walker whatever it has left, is known of them after a turn. -/
theorem tasks_turnAt {p : Work → Prop} (hclear : ∀ c, p (.clear c))
    (hrest : ∀ w rest, p (.walk w) → p (.walk { w with rest })) (h : ∀ t ∈ s.tasks, p t.work)
    (place : Nat) (dueFirst : Bool) : ∀ t ∈ (s.turnAt place dueFirst).tasks, p t.work := by
  intro t ht
  rcases leaves_turnAt ht with ht | ⟨u, hu, hleaves⟩
  · exact h t ht
  · cases hleaves with
    | clear u c _ => exact hclear c
    | walker w _ _ _ _ =>
        exact hrest w _ (h _ ((tasks_without_perm hu).mem_iff.mpr List.mem_cons_self))

def Alone (s : Sequencer) (run : Stamp) : Prop :=
  ∀ t ∈ s.tasks, ∀ w, t.work = .walk w → w.epoch = s.runs.epoch → w.run = run

namespace Alone

variable {run : Stamp}

theorem dispatch (h : s.Alone run) (run' : Stamp) (script : Nat) (a : Action) :
    (s.dispatch run' script a).Alone run := by
  intro t ht w hw hepoch
  rcases List.mem_append.mp ((s.tasks_dispatch_perm run' script a).mem_iff.mp ht) with ht | ht
  · obtain ⟨c, rfl, -, -⟩ := mem_clearsOf ht
    cases hw
  · exact h t ht w hw hepoch

theorem startScripts {active : ActiveRun} (h : s.Alone active.id) (epoch : Nat)
    (scripts : List Script) (place : Nat) :
    (s.startScripts active epoch scripts place).Alone active.id := by
  induction scripts generalizing s place with
  | nil => exact h
  | cons script scripts ih =>
      rw [startScripts_cons]
      refine ih ?_ (place + 1)
      have hdispatch := h.dispatch active.id place script.head
      unfold startScript
      dsimp only
      split
      · exact hdispatch
      · have hruns := runs_of_frame (enter_frame (s.dispatch active.id place script.head) epoch)
        have hspawn := tasks_spawn_perm ((s.dispatch active.id place script.head).enter epoch)
          (.walk ⟨active.id, active.scope, epoch, place, script.rest⟩)
        rw [tasks_enter] at hspawn
        intro t ht w hw hepoch
        rcases List.mem_cons.mp (hspawn.mem_iff.mp ht) with rfl | ht
        · cases hw
          rfl
        · refine hdispatch t ht w hw ?_
          rw [← hruns]
          exact hepoch

/-- A trigger with no walker in flight. -/
theorem start (h : s.Counted) (hidle : s.inFlight = 0) {event : Event}
    (hstart : (s.start event).1 = some run) : (s.start event).2.Alone run := by
  rcases start_cases s event with ⟨-, heq⟩ | ⟨-, heq⟩ <;> rw [heq] at hstart ⊢
  · cases hstart
  · obtain rfl := Option.some.inj hstart
    rw [← openRun_id s event]
    refine startScripts ?_ _ _ _
    intro t ht w hw hepoch
    -- the walker would have been in flight before
    have ht := (tasks_openRun_perm s event).mem_iff.mp ht
    have hepoch : w.epoch = s.runs.cancelActive.epoch := hepoch
    rw [Runs.cancelActive_epoch] at hepoch
    unfold Counted walkersIn at h
    rw [hidle] at h
    have hcount := List.countP_eq_zero.mp h.symm t ht
    simp [hw, Work.isOf, hepoch] at hcount

theorem of_perm (h : s.Alone run) (hepoch : s'.runs.epoch = s.runs.epoch)
    (htasks : s'.tasks.Perm s.tasks) : s'.Alone run := by
  intro t ht w hw hw'
  exact h t (htasks.mem_iff.mp ht) w hw (hepoch ▸ hw')

theorem move (h : s.Alone run) (hle : run ≤ s.runs.lastRun) {m : Move}
    (hcurrent : (s.move m).current = some run) : (s.move m).Alone run := by
  cases m with
  | call c =>
      rw [move_call] at hcurrent ⊢
      obtain ⟨pointer, bounds, program, heq⟩ := call_of_current hle hcurrent
      rw [heq]
      exact h
  | turn place dueFirst =>
      have hruns := runs_of_frame (turnAt_frame s place dueFirst)
      have htasks := tasks_turnAt (s := s)
        (p := fun work => ∀ w, work = .walk w → w.epoch = s.runs.epoch → w.run = run)
        (fun c => nofun) ?_ h place dueFirst
      · intro t ht w hw hepoch
        rw [move_turn, hruns] at hepoch
        exact htasks t ht w hw hepoch
      · rintro w rest hp _ ⟨⟩
        exact hp w rfl
  | pass ms => exact h.of_perm rfl (tasks_wakeAt_perm s _)
  | rejoin => exact h.of_perm rfl s.tasks_rejoin_perm

theorem moves (h : s.Alone run) (hs : s.WellFormed) (hle : run ≤ s.runs.lastRun) {ms : List Move}
    (hcurrent : (s.moves ms).current = some run) : (s.moves ms).Alone run := by
  induction ms generalizing s with
  | nil => exact h
  | cons m ms ih =>
      have hle' := Nat.le_trans hle (move_lastRun_le s m)
      have hnext := current_of_moves (hs.move m) hle' hcurrent
      exact ih (h.move hle hnext) (hs.move m) hle' hcurrent

end Alone

end Sequencer

end SpriteStage
