import SpriteStage.Proofs.Sequencer.Calls
import SpriteStage.Proofs.Sequencer.Past

/-!
# Sequencers after a past

A sequencer does after a past what it would do without it, up to the numbers of its runs. There is
one equation for each operation: doing it after the past is the same as having done it when the past
is put before.
-/

namespace SpriteStage.Sequencer

variable (p : Past)

def after (s : Sequencer) : Sequencer :=
  { s with
    store := s.store.after p
    runs := s.runs.after p
    ready := s.ready.map (Ready.after p)
    yielded := s.yielded.map (Ready.after p)
    asleep := s.asleep.map (Sleeper.after p)
    journal := s.journal.map (Note.after p) ++ p.journal }

@[simp] theorem isCancelled_after (s : Sequencer) (work : Work) :
    (s.after p).isCancelled (work.after p) = s.isCancelled work := by
  unfold isCancelled
  rw [Work.scope_after]
  exact Scopes.isCancelled_after p s.runs.scopes work.scope

theorem stepTime_after (s : Sequencer) : (s.after p).stepTime = s.stepTime := rfl

/-! ## What turns consist of -/

theorem dispatch_after (s : Sequencer) (run : Stamp) (script : Nat) (a : Action) :
    (s.after p).dispatch (p.runs + run) script a = (s.dispatch run script a).after p := by
  have hclears : ((s.outcome a).effect.clears (p.runs + run) (s.runs.session.after p)).map
        (fun c => (⟨.clear c, none⟩ : Ready)) =
      (((s.outcome a).effect.clears run s.runs.session).map
        fun c => (⟨.clear c, none⟩ : Ready)).map (Ready.after p) := by
    rw [Effect.clears_after, List.map_map, List.map_map]
    rfl
  have hstore := s.store.applyStep_after p run (s.outcome a).motion (s.outcome a).effect
  unfold dispatch
  dsimp only
  unfold after
  rw [List.map_append, ← hclears, ← hstore]
  rfl

theorem sleep_after (s : Sequencer) (work : Work) (due : Nat) :
    (s.after p).sleep (work.after p) due = (s.sleep work due).after p := by
  unfold sleep after
  rw [List.map_append]
  rfl

theorem spawn_after (s : Sequencer) (work : Work) :
    (s.after p).spawn (work.after p) = (s.spawn work).after p := by
  unfold spawn after
  rw [List.map_append]
  rfl

theorem yield_after (s : Sequencer) (work : Work) :
    (s.after p).yield (work.after p) = (s.yield work).after p := rfl

theorem note_after (s : Sequencer) (n : Note) :
    (s.after p).note (n.after p) = (s.note n).after p := rfl

theorem enter_after (s : Sequencer) (epoch : Nat) :
    (s.after p).enter (p.epochs + epoch) = (s.enter epoch).after p := by
  have hepoch : p.epochs + epoch = (s.after p).runs.epoch ↔ epoch = s.runs.epoch :=
    Nat.add_left_cancel_iff
  unfold enter
  rw [if_congr hepoch rfl rfl]
  split <;> rfl

theorem leave_after (s : Sequencer) (epoch : Nat) :
    (s.after p).leave (p.epochs + epoch) = (s.leave epoch).after p := by
  have hepoch : p.epochs + epoch = (s.after p).runs.epoch ↔ epoch = s.runs.epoch :=
    Nat.add_left_cancel_iff
  unfold leave
  rw [if_congr hepoch rfl rfl]
  split <;> rfl

theorem fire_after (s : Sequencer) (c : Clear) :
    (s.after p).fire (c.after p) = (s.fire c).after p := by
  have hstore := s.store.clear_after p c.slot c.run
  have howns := s.store.owns_after p c.slot c.run
  unfold fire after
  rw [List.map_cons, ← hstore, ← howns]
  rfl

/-! ## Turns -/

theorem walk_after (s : Sequencer) (w : Walker) (left : Nat) (rest : List Action) :
    (s.after p).walk (w.after p) left rest = (s.walk w left rest).after p := by
  induction rest generalizing s left with
  | nil =>
      unfold walk
      exact leave_after p s w.epoch
  | cons a rest ih =>
      unfold walk
      rw [stepTime_after]
      split
      · exact sleep_after p s (.walk { w with rest := a :: rest }) _
      · cases left with
        | zero => exact yield_after p s (.walk { w with rest := a :: rest })
        | succ left =>
            have hdispatch := dispatch_after p s w.run w.script a
            rw [← ih]
            exact congrArg (fun s : Sequencer => s.walk (w.after p) left rest) hdispatch

theorem walkerTurn_after (s : Sequencer) (w : Walker) (due : Option Nat) :
    (s.after p).walkerTurn (w.after p) due = (s.walkerTurn w due).after p := by
  have hscopes : (s.after p).runs.scopes.isCancelled (w.after p).scope =
      s.runs.scopes.isCancelled w.scope := s.isCancelled_after p (.walk w)
  unfold walkerTurn
  rw [hscopes]
  by_cases hcancelled : s.runs.scopes.isCancelled w.scope = true
  · rw [if_pos hcancelled, if_pos hcancelled]
    exact leave_after p s w.epoch
  · rw [if_neg hcancelled, if_neg hcancelled, show (w.after p).rest = w.rest from rfl]
    cases due with
    | none => exact walk_after p s w stepsPerTurn w.rest
    | some due =>
        cases hrest : w.rest with
        | nil => exact walk_after p s w stepsPerTurn []
        | cons a rest =>
            dsimp only
            rw [show (s.after p).now = s.now from rfl]
            split
            · have hdispatch := dispatch_after p s w.run w.script a
              rw [← walk_after]
              exact congrArg
                (fun s : Sequencer => s.walk (w.after p) (stepsPerTurn - 1) rest) hdispatch
            · exact sleep_after p s (.walk w) due

theorem clearTurn_after (dueFirst : Bool) (s : Sequencer) (c : Clear) (due : Option Nat) :
    (s.after p).clearTurn dueFirst (c.after p) due = (s.clearTurn dueFirst c due).after p := by
  have hscopes : (s.after p).runs.scopes.isCancelled (c.after p).scope =
      s.runs.scopes.isCancelled c.scope := s.isCancelled_after p (.clear c)
  have hdue : due.getD ((s.after p).now + (s.after p).sleepTime (c.after p).time) =
      due.getD (s.now + s.sleepTime c.time) := rfl
  unfold clearTurn
  dsimp only
  rw [hscopes, hdue, show (s.after p).now = s.now from rfl]
  split
  · rfl
  · split
    · exact fire_after p s c
    · exact sleep_after p s (.clear c) _

theorem turn_after (dueFirst : Bool) (s : Sequencer) (t : Ready) :
    (s.after p).turn dueFirst (t.after p) = (s.turn dueFirst t).after p := by
  obtain ⟨work, due⟩ := t
  cases work with
  | walk w => exact walkerTurn_after p s w due
  | clear c => exact clearTurn_after p dueFirst s c due

theorem turnAt_after (s : Sequencer) (place : Nat) (dueFirst : Bool) :
    (s.after p).turnAt place dueFirst = (s.turnAt place dueFirst).after p := by
  have hready : (s.after p).ready[place]? = s.ready[place]?.map (Ready.after p) :=
    List.getElem?_map
  cases h : s.ready[place]? with
  | none =>
      rw [h] at hready
      rw [turnAt_of_none h, turnAt_of_none hready]
  | some t =>
      rw [h] at hready
      rw [turnAt_of_some h, turnAt_of_some hready, ← turn_after]
      congr 1
      unfold without after
      rw [List.eraseIdx_map]

theorem rejoin_after (s : Sequencer) : (s.after p).rejoin = s.rejoin.after p := by
  unfold rejoin after
  rw [List.map_append]
  rfl

/-! ## The clock -/

theorem woken_after (l : List Sleeper) :
    (l.map (Sleeper.after p)).map Sleeper.woken = (l.map Sleeper.woken).map (Ready.after p) := by
  rw [List.map_map, List.map_map]
  rfl

theorem dueBy_after (s : Sequencer) (time : Nat) :
    (s.after p).dueBy time = (s.dueBy time).map (Sleeper.after p) := by
  have hasleep : (s.after p).asleep = s.asleep.map (Sleeper.after p) := rfl
  have horder (l : List Sleeper) : (l.mergeSort fun a b => a.due ≤ b.due).map (Sleeper.after p) =
      (l.map (Sleeper.after p)).mergeSort fun a b => a.due ≤ b.due :=
    List.map_mergeSort fun _ _ _ _ => rfl
  unfold dueBy
  rw [horder, hasleep, List.filter_map]
  rfl

theorem wakeAt_after (s : Sequencer) (time : Nat) :
    (s.after p).wakeAt time = (s.wakeAt time).after p := by
  rw [wakeAt_eq, wakeAt_eq, dueBy_after, woken_after]
  unfold after
  rw [List.map_append, List.filter_map]
  rfl

theorem nextDue?_after (s : Sequencer) : (s.after p).nextDue? = s.nextDue? := by
  have hdues : (s.after p).asleep.map Sleeper.due = s.asleep.map Sleeper.due := by
    show (s.asleep.map (Sleeper.after p)).map Sleeper.due = _
    rw [List.map_map]
    rfl
  unfold nextDue?
  rw [hdues]

theorem nextRound_after (left : Nat) (s : Sequencer) :
    (s.after p).nextRound left = ((s.nextRound left).1.after p, (s.nextRound left).2) := by
  have hready : (s.after p).ready.isEmpty = s.ready.isEmpty := List.isEmpty_map
  unfold nextRound
  rw [hready]
  split
  · rw [rejoin_after]
  · rfl

theorem settleFrom_of_nil {left : Nat} {s : Sequencer} (h : (s.nextRound left).1.ready = []) :
    s.settleFrom left = (s.nextRound left).1 := by
  rw [settleFrom]
  split
  · rfl
  · rename_i hcons
    rw [h] at hcons
    cases hcons

theorem settleFrom_of_cons {left : Nat} {s : Sequencer} {t : Ready} {rest : List Ready}
    (h : (s.nextRound left).1.ready = t :: rest) :
    s.settleFrom left = ({ (s.nextRound left).1 with ready := rest }.turn false t).settleFrom
      ((s.nextRound left).2 - 1) := by
  rw [settleFrom]
  split
  · rename_i hnil
    rw [h] at hnil
    cases hnil
  · rename_i hcons
    rw [h] at hcons
    cases hcons
    rfl

theorem settleFrom_after (left : Nat) (s : Sequencer) :
    (s.after p).settleFrom left = (s.settleFrom left).after p := by
  fun_induction settleFrom left s with
  | case1 left s h =>
      have hround := nextRound_after p left s
      have hready : ((s.after p).nextRound left).1.ready = [] := by
        rw [hround]
        exact List.map_eq_nil_iff.mpr h
      rw [settleFrom_of_nil hready, hround]
  | case2 left s t rest h ih =>
      have hround := nextRound_after p left s
      have hready : ((s.after p).nextRound left).1.ready = t.after p :: rest.map (Ready.after p) := by
        rw [hround]
        show (s.nextRound left).1.ready.map _ = _
        rw [h, List.map_cons]
      rw [settleFrom_of_cons hready, ← ih, ← turn_after, hround]
      rfl

theorem settle_after (s : Sequencer) : (s.after p).settle = s.settle.after p :=
  settleFrom_after p _ s

/-- Letting time pass as long as it is wanted, when the past does not change what is wanted. -/
theorem runUntil_after {goOn : Sequencer → Bool} (hgoOn : ∀ s, goOn (s.after p) = goOn s)
    (last : Nat) (s : Sequencer) :
    runUntil goOn last (s.after p) = (runUntil goOn last s).after p := by
  fun_induction runUntil goOn last s with
  | case1 s hstop =>
      rw [runUntil, hgoOn, if_pos hstop]
  | case2 s hgo hnone =>
      rw [runUntil, hgoOn, if_neg hgo, nextDue?_after, hnone]
  | case3 s hgo due hdue hcond ih =>
      rw [runUntil, hgoOn, if_neg hgo, nextDue?_after, hdue, ← ih, ← settle_after, ← wakeAt_after]
      exact if_pos hcond
  | case4 s hgo due hdue hcond =>
      rw [runUntil, hgoOn, if_neg hgo, nextDue?_after, hdue]
      exact if_neg hcond

theorem wait_after (s : Sequencer) (ms : Nat) : (s.after p).wait ms = (s.wait ms).after p := by
  unfold wait
  dsimp only
  rw [← wakeAt_after, ← runUntil_after p (fun _ => rfl)]
  rfl

theorem idleBy_after (s : Sequencer) : (s.after p).idleBy = s.idleBy := by
  unfold idleBy
  dsimp only
  rw [show (s.after p).asleep = s.asleep.map (Sleeper.after p) from rfl, List.foldl_map,
    stepTime_after]
  refine congrArg (fun f => s.now + s.stepTime * s.asleep.foldl f 0) ?_
  funext n t
  obtain ⟨work, due⟩ := t
  cases work <;> rfl

theorem waitIdle_after (s : Sequencer) : (s.after p).waitIdle = s.waitIdle.after p := by
  unfold waitIdle
  rw [idleBy_after]
  exact runUntil_after p (fun _ => rfl) s.idleBy s

/-! ## Calls -/

theorem wakeCancelled_after (s : Sequencer) :
    (s.after p).wakeCancelled = s.wakeCancelled.after p := by
  have hcancelled : (s.after p).asleep.filter (fun t => (s.after p).isCancelled t.work) =
      (s.asleep.filter fun t => s.isCancelled t.work).map (Sleeper.after p) := by
    show (s.asleep.map (Sleeper.after p)).filter _ = _
    rw [List.filter_map]
    congr 2
    funext t
    exact isCancelled_after p s t.work
  have hothers : (s.after p).asleep.filter (fun t => !(s.after p).isCancelled t.work) =
      (s.asleep.filter fun t => !s.isCancelled t.work).map (Sleeper.after p) := by
    show (s.asleep.map (Sleeper.after p)).filter _ = _
    rw [List.filter_map]
    congr 2
    funext t
    exact congrArg (!·) (isCancelled_after p s t.work)
  rw [wakeCancelled_eq, wakeCancelled_eq, hcancelled, hothers, woken_after]
  unfold after
  rw [List.map_append]

theorem cancelCurrent_after (s : Sequencer) :
    (s.after p).cancelCurrent = s.cancelCurrent.after p := by
  unfold cancelCurrent
  rw [← wakeCancelled_after]
  congr 1
  unfold after
  rw [← Runs.cancelActive_after]

theorem beginRun_after (s : Sequencer) :
    (s.after p).beginRun = (s.beginRun.1.after p, s.beginRun.2.after p) := by
  have hruns : (s.after p).runs.start = (s.runs.start.1.after p, s.runs.start.2.after p) :=
    s.runs.start_after p
  unfold beginRun
  rw [hruns]
  dsimp only
  rw [← wakeCancelled_after]
  rfl

theorem openRun_after (s : Sequencer) (event : Event) :
    (s.after p).openRun event =
      ((s.openRun event).1.after p, (s.openRun event).2.after p) := by
  have hbegin := beginRun_after p { s with store := s.store.push s.store.snapshot }
  unfold openRun
  dsimp only
  rw [← note_after]
  exact congrArg (fun r : ActiveRun × Sequencer => (r.1, r.2.note (.started r.2.now r.1.id event _))) hbegin

theorem startScript_after (run : ActiveRun) (epoch : Nat) (s : Sequencer) (script : Script × Nat) :
    startScript (run.after p) (p.epochs + epoch) (s.after p) script =
      (startScript run epoch s script).after p := by
  have hdispatch := dispatch_after p s run.id script.2 script.1.head
  unfold startScript
  dsimp only
  rw [show (run.after p).id = p.runs + run.id from rfl, hdispatch]
  split
  · rfl
  · rw [enter_after, ← spawn_after]
    rfl

theorem startScripts_after (s : Sequencer) (run : ActiveRun) (epoch : Nat) (scripts : List Script)
    (place : Nat) :
    (s.after p).startScripts (run.after p) (p.epochs + epoch) scripts place =
      (s.startScripts run epoch scripts place).after p := by
  induction scripts generalizing s place with
  | nil => rfl
  | cons script scripts ih => rw [startScripts_cons, startScripts_cons, startScript_after, ih]

theorem start_after (s : Sequencer) (event : Event) :
    (s.after p).start event =
      ((s.start event).1.map (p.runs + ·), (s.start event).2.after p) := by
  have hscripts : (s.after p).program.scriptsFor event = s.program.scriptsFor event := rfl
  unfold start
  rw [hscripts]
  split
  · rfl
  · rw [openRun_after]
    dsimp only
    rw [← startScripts_after]
    rfl

theorem isPlaying_after (s : Sequencer) : (s.after p).isPlaying = s.isPlaying := by
  have hcurrent : (s.after p).current = s.current.map (p.runs + ·) := s.runs.current_after p
  unfold isPlaying
  rw [hcurrent, Option.isSome_map]
  rfl

theorem run_after (s : Sequencer) :
    (s.after p).run = (s.run.1.map (p.runs + ·), s.run.2.after p) := by
  unfold run
  rw [isPlaying_after]
  split
  · rfl
  · exact start_after p s .flagClicked

theorem undo_after (s : Sequencer) : (s.after p).undo = (s.undo.1, s.undo.2.after p) := by
  unfold undo
  dsimp only
  rw [cancelCurrent_after]
  cases h : s.cancelCurrent.store.history with
  | nil =>
      have hafter : (s.cancelCurrent.after p).store.history = [] := h
      rw [Store.pop_of_nil h, Store.pop_of_nil hafter]
  | cons entry older =>
      have hafter : (s.cancelCurrent.after p).store.history = entry :: older := h
      rw [Store.pop_of_cons h, Store.pop_of_cons hafter]
      rfl

/-- A reset wakes the sleepers of the session that is over last. -/
theorem reset_eq (s : Sequencer) :
    s.reset = { s with
      store := s.store.reset
      runs := s.runs.reset
      inFlight := 0
      journal := .reset s.now :: s.journal }.wakeCancelled := rfl

theorem reset_after (s : Sequencer) : (s.after p).reset = s.reset.after p := by
  rw [reset_eq, reset_eq, ← wakeCancelled_after]
  rfl

end SpriteStage.Sequencer

namespace SpriteStage

/-- A reply, with the number that a run has when so many were started before it. -/
def Reply.after (runs : Nat) : Reply → Reply
  | .started run => .started (run.map (runs + ·))
  | reply => reply

namespace Sequencer

variable (p : Past)

theorem call_after (s : Sequencer) (c : Call) :
    (s.after p).call c = ((s.call c).1.after p.runs, (s.call c).2.after p) := by
  cases c with
  | start event =>
      show ((s.after p).start event).map Reply.started id = _
      rw [start_after]
      rfl
  | run =>
      show (s.after p).run.map Reply.started id = _
      rw [run_after]
      rfl
  | undo =>
      show (s.after p).undo.map Reply.undone id = _
      rw [undo_after]
      rfl
  | reset => exact congrArg (Prod.mk Reply.done) (reset_after p s)
  | replaceProgram program => rfl
  | recordPointer point => rfl
  | readPointer => rfl
  | recordDrawn point => rfl

end Sequencer

end SpriteStage
