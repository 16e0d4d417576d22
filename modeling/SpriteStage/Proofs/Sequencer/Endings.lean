import SpriteStage.Proofs.Sequencer.Playing
import SpriteStage.Proofs.Sequencer.RoundRobin
import SpriteStage.Proofs.Sequencer.UndoStack
import SpriteStage.Proofs.Sequencer.Walks

/-!
# When scripts are over

A script of a run is over when all of its actions were executed, or when its walker found that the run
was cancelled. The walkers of the present epoch are those of the scripts that were started since the
last reset, so none of them is in flight just when all these scripts are over:
`inFlight_eq_zero_iff`. What a move leaves of a walker is `walker_of_move`.
-/

namespace SpriteStage

def Call.event? : Call → Option Event
  | .start event => some event
  | .run => some .flagClicked
  | _ => none

def Move.isReset : Move → Bool
  | .call .reset => true
  | _ => false

namespace Sequencer

variable {s s₀ : Sequencer} {run : Stamp} {place : Nat} {script : Script} {ms : List Move}

/-- A call starts a script of the program as one of the scripts of a run. -/
structure Starts (s : Sequencer) (c : Call) (run : Stamp) (place : Nat) (script : Script) : Prop where
  reply : (s.call c).1 = .started (some run)
  script : ∃ event, c.event? = some event ∧ (s.program.scriptsFor event)[place]? = some script

/-- In a schedule a script was started as one of a run, and no reset came after it. -/
def Begun (s₀ : Sequencer) (ms : List Move) (run : Stamp) (place : Nat) (script : Script) : Prop :=
  ∃ before c after, ms = before ++ .call c :: after ∧ (∀ m ∈ after, m.isReset = false) ∧
    (s₀.rebuilt.moves before).Starts c run place script

/-- A script of a run is over: nothing walks along it any more, and unless the run was cancelled all
of its actions were executed. -/
structure Over (s : Sequencer) (run : Stamp) (place : Nat) (script : Script) : Prop where
  gone : s.walkersOf run place = []
  done : s.current = some run → (s.stepsOf run place).map Step.action = script.actions

/-! ## The call that starts a run -/

/-- A call that starts a run does what the trigger of its event does. -/
theorem call_started {c : Call} (h : (s.call c).1 = .started (some run)) :
    ∃ event, c.event? = some event ∧ (s.start event).1 = some run ∧
      (s.call c).2 = (s.start event).2 := by
  cases c with
  | start event =>
      have h : Reply.started (s.start event).1 = .started (some run) := h
      exact ⟨event, rfl, Reply.started.inj h, rfl⟩
  | run =>
      have h : Reply.started s.run.1 = .started (some run) := h
      have hrun := Reply.started.inj h
      rcases run_cases s with ⟨-, heq⟩ | ⟨-, heq⟩ <;> rw [heq] at hrun
      · cases hrun
      · exact ⟨.flagClicked, rfl, hrun, congrArg Prod.snd heq⟩
  | _ => cases h

theorem Starts.start {c : Call} (h : s.Starts c run place script) :
    ∃ event, (s.start event).1 = some run ∧ (s.call c).2 = (s.start event).2 ∧
      (s.program.scriptsFor event)[place]? = some script := by
  obtain ⟨event, hevent, hscript⟩ := h.script
  obtain ⟨event', hevent', hstart, hcall⟩ := call_started h.reply
  obtain rfl := Option.some.inj (hevent'.symm.trans hevent)
  exact ⟨event', hstart, hcall, hscript⟩

/-! ## Epochs -/

/-- Only a reset begins an epoch. -/
theorem epoch_move (s : Sequencer) (m : Move) :
    (s.move m).runs.epoch = s.runs.epoch + if m.isReset then 1 else 0 := by
  have hstart (event : Event) : (s.start event).2.runs.epoch = s.runs.epoch := by
    rcases start_cases s event with ⟨-, heq⟩ | ⟨-, heq⟩ <;> rw [heq]
    rw [runs_of_frame (startScripts_frame _ _ _ _ _)]
    exact Runs.cancelActive_epoch s.runs
  cases m with
  | turn place dueFirst => exact congrArg Runs.epoch (runs_of_frame (turnAt_frame s place dueFirst))
  | pass ms => rfl
  | rejoin => rfl
  | call c =>
      cases c with
      | start event => exact hstart event
      | run =>
          show s.run.2.runs.epoch = s.runs.epoch
          rcases run_cases s with ⟨-, heq⟩ | ⟨-, heq⟩ <;> rw [heq]
          exact hstart .flagClicked
      | undo =>
          show s.undo.2.runs.epoch = s.runs.epoch
          rcases undo_cases s with ⟨-, heq⟩ | ⟨_, _, -, heq⟩ <;> rw [heq] <;>
            exact Runs.cancelActive_epoch s.runs
      | _ => rfl

theorem epoch_moves (s : Sequencer) (ms : List Move) :
    (s.moves ms).runs.epoch = s.runs.epoch + ms.countP Move.isReset := by
  induction ms generalizing s with
  | nil => rfl
  | cons m ms ih =>
      rw [moves_cons, ih, epoch_move, List.countP_cons]
      omega

/-! ## Walkers -/

theorem mem_walkersOf {t : Ready} : t ∈ s.walkersOf run place ↔
    t ∈ s.tasks ∧ ∃ w, t.work = .walk w ∧ w.run = run ∧ w.script = place := by
  unfold walkersOf
  rw [List.mem_filter]
  refine and_congr_right fun _ => ?_
  cases t.work <;> simp [Work.walks]

/-- A walker after a move is what is left of one before it, or belongs to a run that the move
started. -/
theorem walker_of_move (hs : s.WellFormed) {m : Move} {t : Ready} {w : Walker}
    (ht : t ∈ (s.move m).tasks) (hw : t.work = .walk w) :
    (∃ u ∈ s.tasks, ∃ rest, u.work = .walk { w with rest }) ∨
      s.runs.lastRun < w.run ∧ (s.move m).current = some w.run := by
  rcases Nat.lt_or_ge s.runs.lastRun w.run with hnew | hle
  · have hfits := (hs.move m).fits t ht
    rw [hw] at hfits
    have hle : w.run ≤ (s.move m).runs.lastRun := hfits.run_le
    rcases move_current s m with ⟨hlast, -⟩ | ⟨hlast, hcurrent⟩
    · exact absurd hnew (Nat.not_lt.mpr (hlast ▸ hle))
    · refine .inr ⟨hnew, hcurrent.trans (congrArg some ?_)⟩
      exact Nat.le_antisymm hnew (hlast ▸ hle)
  · left
    by_cases hm : ∃ slot dueFirst, m = .turn slot dueFirst
    · obtain ⟨slot, dueFirst, rfl⟩ := hm
      refine tasks_turnAt (s := s) (p := fun work => ∀ w, work = .walk w →
        ∃ u ∈ s.tasks, ∃ rest, u.work = .walk { w with rest }) ?_ ?_ ?_ slot dueFirst t ht w hw
      · intro c w hw
        cases hw
      · rintro w rest hp _ ⟨⟩
        exact hp w rfl
      · intro u hu w hw
        exact ⟨u, hu, w.rest, hw⟩
    · push Not at hm
      have hmem := mem_walkersOf.mpr ⟨ht, w, hw, rfl, rfl⟩
      have hmem := (move_undisturbed hle hm).2.mem_iff.mp hmem
      exact ⟨t, (mem_walkersOf.mp hmem).1, w.rest, hw⟩

/-- The walkers of a run stay in the epoch in which the run was started. -/
theorem epoch_of_walker {epoch : Nat} (hs : s.WellFormed) (hle : run ≤ s.runs.lastRun)
    (h : ∀ t ∈ s.tasks, ∀ w, t.work = .walk w → w.run = run → w.epoch = epoch) (ms : List Move) :
    ∀ t ∈ (s.moves ms).tasks, ∀ w, t.work = .walk w → w.run = run → w.epoch = epoch := by
  induction ms generalizing s with
  | nil => exact h
  | cons m ms ih =>
      refine ih (hs.move m) (Nat.le_trans hle (move_lastRun_le s m)) ?_
      rintro t ht w hw rfl
      rcases walker_of_move hs ht hw with ⟨u, hu, rest, hrest⟩ | ⟨hnew, -⟩
      · exact h u hu { w with rest } hrest rfl
      · exact absurd hle (Nat.not_le.mpr hnew)

/-- Each walker comes of a call that started its script, in the epoch that the walker has. -/
theorem starts_of_walker {t : Ready} {w : Walker} (ht : t ∈ (s₀.rebuilt.moves ms).tasks)
    (hw : t.work = .walk w) :
    ∃ before c after script, ms = before ++ .call c :: after ∧
      (s₀.rebuilt.moves before).Starts c w.run w.script script ∧
      w.epoch = (s₀.rebuilt.moves before).runs.epoch := by
  induction ms using List.reverseRecOn generalizing t w with
  | nil => cases ht
  | append_singleton ms m ih =>
      have hs : (s₀.rebuilt.moves ms).WellFormed := (wellFormed_rebuilt s₀).moves ms
      rw [moves_append, moves_cons, moves_nil] at ht
      rcases walker_of_move hs ht hw with ⟨u, hu, rest, hrest⟩ | ⟨hnew, hcurrent⟩
      · obtain ⟨before, c, after, script, heq, hstarts, hepoch⟩ := ih hu hrest
        refine ⟨before, c, after ++ [m], script, ?_, hstarts, hepoch⟩
        rw [heq, List.append_assoc, List.cons_append]
      · -- the walker is one of the run that the move started
        rcases current_move_cases hcurrent with ⟨hbefore, -⟩ | ⟨c, rfl, hreply⟩
        · exact absurd (hs.current_eq hbefore) (Nat.ne_of_gt hnew)
        obtain ⟨event, hevent, hstart, hcall⟩ := call_started hreply
        have hplace : w.script < ((s₀.rebuilt.moves ms).program.scriptsFor event).length := by
          by_contra hbeyond
          have huntouched := untouched_start hs hstart (Nat.le_of_not_lt hbeyond)
          have hmem := mem_walkersOf.mpr ⟨ht, w, hw, rfl, rfl⟩
          rw [move_call, hcall, huntouched.2] at hmem
          cases hmem
        refine ⟨ms, c, [], _, rfl, ⟨hreply, event, hevent, List.getElem?_eq_getElem hplace⟩, ?_⟩
        have hepoch := (hs.call c).epoch_eq ht hw hcurrent
        have hreset : (Move.call c).isReset = false := by
          cases c with
          | reset => cases hevent
          | _ => rfl
        have hmove := epoch_move (s₀.rebuilt.moves ms) (.call c)
        rw [hreset, move_call] at hmove
        exact hepoch.trans hmove

/-! ## Scripts that are through -/

/-- As long as its run goes on, a script without a walker is through. -/
def Finishes (s : Sequencer) (run : Stamp) (place : Nat) (script : Script) : Prop :=
  s.current = some run → s.walkersOf run place = [] →
    (s.stepsOf run place).map Step.action = script.actions

theorem stepsOf_leave (s : Sequencer) (epoch : Nat) :
    (s.leave epoch).stepsOf run place = s.stepsOf run place :=
  stepsOf_of_steps (steps_leave s epoch)

/-- A walker that was not cancelled ends its turn as a task or with the last action of its script. -/
theorem walkerTurn_finishes {w : Walker} {due : Option Nat} (hw : w.run = run ∧ w.script = place)
    (hlive : s.isCancelled (.walk w) = false)
    (horder : (s.stepsOf run place).map Step.action ++ w.rest = script.actions)
    (hnone : (s.walkerTurn w due).walkersOf run place = []) :
    ((s.walkerTurn w due).stepsOf run place).map Step.action = script.actions := by
  obtain ⟨rfl, rfl⟩ := hw
  have hdispatch {s : Sequencer} {a : Action} {rest : List Action}
      (h : (s.stepsOf w.run w.script).map Step.action ++ a :: rest = script.actions) :
      ((s.dispatch w.run w.script a).stepsOf w.run w.script).map Step.action ++ rest =
        script.actions := by
    rw [stepsOf_dispatch_self, List.map_append, List.append_assoc]
    exact h
  -- a walker that sleeps or yields is still there
  have hstays {s s' : Sequencer} {t : Ready} {rest : List Action}
      (ht : t.work = .walk { w with rest }) (htasks : s'.tasks.Perm (t :: s.tasks))
      (hnone : s'.walkersOf w.run w.script = []) : False := by
    have hmem := htasks.mem_iff.mpr List.mem_cons_self
    have hmem := mem_walkersOf.mpr ⟨hmem, { w with rest }, ht, rfl, rfl⟩
    rw [hnone] at hmem
    cases hmem
  revert hnone
  refine walkerTurn_induction
    (P := fun s' rest => (s'.stepsOf w.run w.script).map Step.action ++ rest = script.actions)
    (Q := fun s' => s'.walkersOf w.run w.script = [] →
      (s'.stepsOf w.run w.script).map Step.action = script.actions) ?_ ?_ ?_ ?_ hlive horder ?_ ?_
  · intro s' a rest _ h
    exact hdispatch h
  · intro s' h _
    rw [stepsOf_leave]
    exact (List.append_nil _).symm.trans h
  · intro s' a rest _ _ hnone
    exact (hstays rfl (tasks_sleep_perm s' _ _) hnone).elim
  · intro s' a rest _ _ hnone
    exact (hstays rfl (tasks_yield_perm s' _) hnone).elim
  · intro a rest d _ _ hrest
    rw [hrest] at horder
    exact hdispatch horder
  · intro d _ _ hnone
    exact (hstays rfl (tasks_sleep_perm s (.walk w) d) hnone).elim

theorem walkersOf_start {event : Event} (hstart : (s.start event).1 = some run)
    (hscript : (s.program.scriptsFor event)[place]? = some script) (hrest : script.rest ≠ []) :
    (s.start event).2.walkersOf run place ≠ [] := by
  rcases start_cases s event with ⟨-, heq⟩ | ⟨-, heq⟩ <;> rw [heq] at hstart ⊢
  · cases hstart
  · obtain rfl := Option.some.inj hstart
    obtain ⟨a, rest, hcons⟩ := List.exists_cons_of_ne_nil hrest
    have hline : ((place, script.rest), none) ∈ (((s.openRun event).2.startScripts
        (s.openRun event).1 (s.openRun event).2.runs.epoch (s.program.scriptsFor event) 0).view
          (s.openRun event).1.id).ready := by
      rw [view_startScripts]
      refine List.mem_append_right _ (List.mem_map.mpr ⟨⟨place, a, rest⟩, ?_, ?_⟩)
      · refine List.mem_filterMap.mpr ⟨(script, place), ?_, ?_⟩
        · exact List.mk_mem_zipIdx_iff_getElem?.mpr hscript
        · rw [hcons]
          rfl
      · rw [hcons]
        rfl
    rw [← openRun_id s event]
    obtain ⟨t, ht, hsome⟩ := List.mem_filterMap.mp hline
    obtain ⟨line, hwork, hpair⟩ := Option.map_eq_some_iff.mp hsome
    refine List.ne_nil_of_mem (mem_walkersOf (t := t).mpr ⟨?_, ?_⟩)
    · exact List.mem_append_left _ (List.mem_append_left _ ht)
    · obtain ⟨rfl, -⟩ := Prod.mk.inj hpair
      cases hw : t.work with
      | clear c => simp [hw, Work.line?] at hwork
      | walk w =>
          rw [hw, Work.line?, Option.ite_none_right_eq_some] at hwork
          exact ⟨w, rfl, hwork.1, congrArg Prod.fst (Option.some.inj hwork.2)⟩

namespace Finishes

theorem turnAt (h : s.Finishes run place script) (htrack : s.OnTrack run place script)
    (hs : s.WellFormed) (slot : Nat) (dueFirst : Bool) :
    (s.turnAt slot dueFirst).Finishes run place script := by
  intro hcurrent hnone
  rw [turnAt_current] at hcurrent
  cases ht : s.ready[slot]? with
  | none =>
      rw [turnAt_of_none ht] at hnone ⊢
      exact h hcurrent hnone
  | some t =>
      have htasks := tasks_without_perm ht
      rw [turnAt_of_some ht] at hnone ⊢
      cases hwalks : t.work.walks run place with
      | true =>
          -- it is the one walker of the script, with just the rest of the script left
          have hwalkers := walkersOf_add_self htasks hwalks
          obtain ⟨rest, hwalked, hgone | ⟨w, due, hone, hrest, -⟩⟩ := htrack
          · rw [hgone] at hwalkers
            exact absurd hwalkers.nil_eq (List.cons_ne_nil _ _).symm
          · rw [hone] at hwalkers
            obtain ⟨rfl, -⟩ := List.cons.inj (List.perm_singleton.mp hwalkers.symm)
            have hw : w.run = run ∧ w.script = place := by simpa [Work.walks] using hwalks
            have hlive := hs.live hcurrent hw.1 (htasks.mem_iff.mpr List.mem_cons_self)
            exact walkerTurn_finishes (s := s.without slot) hw hlive (hrest ▸ hwalked.order) hnone
      | false =>
          have hwithout : Undisturbed s (s.without slot) run place :=
            ⟨rfl, (walkersOf_add_of_ne htasks hwalks).symm⟩
          have hturn := hwithout.trans (.turn hwalks (s.without slot) dueFirst)
          rw [hturn.1]
          exact h hcurrent (List.nil_perm.mp (hnone ▸ hturn.2))

theorem move (h : s.Finishes run place script) (htrack : s.OnTrack run place script)
    (hs : s.WellFormed) (m : Move) : (s.move m).Finishes run place script := by
  obtain ⟨rest, hwalked, -⟩ := id htrack
  by_cases hm : ∃ slot dueFirst, m = .turn slot dueFirst
  · obtain ⟨slot, dueFirst, rfl⟩ := hm
    exact h.turnAt htrack hs slot dueFirst
  · push Not at hm
    obtain ⟨hsteps, hwalkers⟩ : Undisturbed s (s.move m) run place :=
      move_undisturbed hwalked.opened hm
    intro hcurrent hnone
    have hcurrent : (s.moves [m]).current = some run := hcurrent
    have hbefore : s.current = some run := current_of_moves hs hwalked.opened hcurrent
    rw [hsteps]
    exact h hbefore (List.nil_perm.mp (hnone ▸ hwalkers))

theorem moves (h : s.Finishes run place script) (htrack : s.OnTrack run place script)
    (hs : s.WellFormed) (ms : List Move) : (s.moves ms).Finishes run place script := by
  induction ms generalizing s with
  | nil => exact h
  | cons m ms ih => exact ih (h.move htrack hs m) (htrack.move m) (hs.move m)

/-- A script that is started has a walker, unless its head is all of it. -/
theorem start (hs : s.WellFormed) {event : Event} (hstart : (s.start event).1 = some run)
    (hscript : (s.program.scriptsFor event)[place]? = some script) :
    (s.start event).2.Finishes run place script := by
  intro _ hnone
  obtain ⟨rest, hwalked, -⟩ := onTrack_start hs hstart hscript
  have horder := hwalked.order
  have hrest : script.rest = [] := by
    by_contra hne
    exact walkersOf_start hstart hscript hne hnone
  -- the head is among the steps, so there is nothing else
  obtain ⟨step, steps, hsteps⟩ := List.exists_cons_of_ne_nil hwalked.begun
  rw [Script.actions, hrest, hsteps, List.map_cons, List.cons_append] at horder
  obtain ⟨-, hnil⟩ := List.append_eq_nil_iff.mp (List.cons.inj horder).2
  rw [Script.actions, hrest, hsteps, List.map_cons, ← horder, hnil, List.append_nil]

end Finishes

/-! ## None in flight -/

/-- A walker of the present epoch walks along a script that was started since the last reset. -/
theorem begun_of_walker {t : Ready} {w : Walker} (ht : t ∈ (s₀.rebuilt.moves ms).tasks)
    (hw : t.work = .walk w) (hepoch : w.epoch = (s₀.rebuilt.moves ms).runs.epoch) :
    ∃ script, Begun s₀ ms w.run w.script script := by
  obtain ⟨before, c, after, script, rfl, hstarts, hbefore⟩ := starts_of_walker ht hw
  have hsince := epoch_moves (s₀.rebuilt.moves before) (.call c :: after)
  rw [← moves_append, ← hepoch, hbefore, List.countP_cons] at hsince
  have hcount : after.countP Move.isReset = 0 := by omega
  refine ⟨script, before, c, after, rfl, fun m hm => ?_, hstarts⟩
  rw [← Bool.not_eq_true]
  exact List.countP_eq_zero.mp hcount m hm

/-- Without a walker of the present epoch, the scripts that were started since the last reset are
over. -/
theorem over_of_begun (hbegun : Begun s₀ ms run place script)
    (hnone : ∀ t ∈ (s₀.rebuilt.moves ms).tasks, ∀ w, t.work = .walk w →
      w.epoch ≠ (s₀.rebuilt.moves ms).runs.epoch) :
    (s₀.rebuilt.moves ms).Over run place script := by
  obtain ⟨before, c, after, rfl, hafter, hstarts⟩ := hbegun
  have hs : (s₀.rebuilt.moves before).WellFormed := (wellFormed_rebuilt s₀).moves before
  obtain ⟨event, hstart, hcall, hscript⟩ := hstarts.start
  obtain ⟨hrun, hcurrent⟩ := start_current hstart
  rw [moves_append, moves_cons, move_call] at hnone ⊢
  have htrack := onTrack_start hs hstart hscript
  have hfinishes := Finishes.start hs hstart hscript
  have hcalled := hs.call c
  rw [← hcall] at htrack hfinishes hcurrent
  have hgone : (((s₀.rebuilt.moves before).call c).2.moves after).walkersOf run place = [] := by
    refine List.eq_nil_iff_forall_not_mem.mpr fun t hmem => ?_
    obtain ⟨ht, w, hw, hwrun, -⟩ := mem_walkersOf.mp hmem
    -- no reset began another epoch since the walker's run was started
    have hepoch := epoch_of_walker hcalled (Nat.le_of_eq (hcalled.current_eq hcurrent))
      (fun t ht w hw hrun => hcalled.epoch_eq ht hw (hrun ▸ hcurrent)) after t ht w hw hwrun
    refine hnone t ht w hw (hepoch.trans ?_)
    rw [epoch_moves, List.countP_eq_zero.mpr fun m hm => by simp [hafter m hm], Nat.add_zero]
  exact ⟨hgone, fun hgoes => hfinishes.moves htrack hcalled after hgoes hgone⟩

/-- No walker is in flight just when every script that was started since the last reset is over. -/
theorem inFlight_eq_zero_iff (s₀ : Sequencer) (ms : List Move) :
    (s₀.rebuilt.moves ms).inFlight = 0 ↔
      ∀ run place script, Begun s₀ ms run place script →
        (s₀.rebuilt.moves ms).Over run place script := by
  have hzero : (s₀.rebuilt.moves ms).inFlight = 0 ↔ ∀ t ∈ (s₀.rebuilt.moves ms).tasks, ∀ w,
      t.work = .walk w → w.epoch ≠ (s₀.rebuilt.moves ms).runs.epoch := by
    rw [((Reachable.built s₀).moves ms).counted, walkersIn, List.countP_eq_zero]
    refine forall₂_congr fun t _ => ?_
    cases t.work <;> simp [Work.isOf]
  rw [hzero]
  constructor
  · intro hnone run place script hbegun
    exact over_of_begun hbegun hnone
  · intro hover t ht w hw hepoch
    obtain ⟨script, hbegun⟩ := begun_of_walker ht hw hepoch
    have hgone := (hover w.run w.script script hbegun).gone
    have hmem := mem_walkersOf.mpr ⟨ht, w, hw, rfl, rfl⟩
    rw [hgone] at hmem
    cases hmem

end Sequencer

end SpriteStage
