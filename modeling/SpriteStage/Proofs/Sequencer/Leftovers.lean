import SpriteStage.Proofs.Sequencer.After

/-!
# What is left over

Tasks of a past that is over may still be queued. Each was cancelled, its walker is not counted any
more, and its run owns nothing. A turn of such a task changes nothing but the queue and the journal,
and the other operations do the same whether it is there or not: doing them and then sweeping away
what is left over is the same as sweeping first.
-/

namespace SpriteStage

/-- Whether a task was left over by a past in which it was cancelled. -/
def Work.isLeftover (p : Past) : Work → Bool
  | .walk w => p.scopes.isCancelled w.scope && decide (w.epoch < p.epochs)
  | .clear c => p.scopes.isCancelled c.scope && decide (c.run ≤ p.runs)

def Note.isLeftover (p : Past) : Note → Bool
  | .cleared _ _ run _ => decide (run ≤ p.runs)
  | _ => false

theorem Work.isLeftover_eq_false {p : Past} {work : Work}
    (h : p.scopes.isCancelled work.scope = false) : work.isLeftover p = false := by
  cases work <;> exact congrArg (· && _) h

@[simp] theorem Work.isLeftover_after (p : Past) (work : Work) :
    (work.after p).isLeftover p = false := by
  apply isLeftover_eq_false
  rw [scope_after]
  exact p.isCancelled_after work.scope

namespace Sequencer

variable {p : Past} {s : Sequencer}

variable (p) in
/-- The sequencer without what is left over. -/
def sweep (s : Sequencer) : Sequencer :=
  { s with
    ready := s.ready.filter fun t => !t.work.isLeftover p
    yielded := s.yielded.filter fun t => !t.work.isLeftover p
    journal := s.journal.filter fun n => !n.isLeftover p }

/-- A sequencer that goes on since a past. -/
structure Since (p : Past) (s : Sequencer) : Prop where
  opened_le : p.scopes.opened ≤ s.runs.scopes.opened
  session : p.scopes.isCancelled s.runs.session = false
  cancelled : ∀ scope, p.scopes.isCancelled scope = true →
    s.runs.scopes.isCancelled scope = true
  epoch_le : p.epochs ≤ s.runs.epoch
  owners : ∀ slot run, s.store.owns slot run = true → p.runs < run
  asleep : ∀ t ∈ s.asleep, t.work.isLeftover p = false

theorem Since.without (hs : s.Since p) (place : Nat) : (s.without place).Since p :=
  ⟨hs.opened_le, hs.session, hs.cancelled, hs.epoch_le, hs.owners, hs.asleep⟩

/-! ## Turns of what is left over -/

theorem walkerTurn_leftover (hs : s.Since p) {w : Walker}
    (hw : (Work.walk w).isLeftover p = true) (due : Option Nat) : s.walkerTurn w due = s := by
  rw [Work.isLeftover, Bool.and_eq_true, decide_eq_true_eq] at hw
  have hcancelled : s.isCancelled (.walk w) = true := hs.cancelled _ hw.1
  have hepoch : w.epoch ≠ s.runs.epoch := Nat.ne_of_lt (Nat.lt_of_lt_of_le hw.2 hs.epoch_le)
  rw [walkerTurn_of_cancelled hcancelled]
  exact if_neg hepoch

/-- A turn of a task that is left over changes nothing, or notes that a clear came too late. -/
theorem turn_leftover (hs : s.Since p) {t : Ready} (ht : t.work.isLeftover p = true)
    (dueFirst : Bool) :
    s.turn dueFirst t = s ∨
      ∃ slot run, run ≤ p.runs ∧ s.turn dueFirst t = s.note (.cleared s.now slot run false) := by
  unfold turn
  split
  · rename_i w hw
    rw [hw] at ht
    exact .inl (walkerTurn_leftover hs ht t.due)
  · rename_i c hc
    rw [hc, Work.isLeftover, Bool.and_eq_true, decide_eq_true_eq] at ht
    have hcancelled : s.isCancelled (.clear c) = true := hs.cancelled _ ht.1
    have howns : s.store.owns c.slot c.run = false := by
      rw [← Bool.not_eq_true]
      intro howns
      exact Nat.not_lt_of_le ht.2 (hs.owners _ _ howns)
    rcases clearTurn_cases dueFirst s c t.due with ⟨h, -⟩ | ⟨h, -⟩ | ⟨hlive, -, -⟩
    · exact .inl h
    · -- the clear saw that it is due before it saw that its session is over
      refine .inr ⟨c.slot, c.run, ht.2, ?_⟩
      rw [h]
      unfold fire note
      rw [Store.clear_of_not_owns howns, howns]
    · rw [hcancelled] at hlive
      cases hlive

/-- In the order of the queue a clear sees first that its session is over. -/
theorem turn_false_leftover (hs : s.Since p) {t : Ready} (ht : t.work.isLeftover p = true) :
    s.turn false t = s := by
  unfold turn
  split
  · rename_i w hw
    rw [hw] at ht
    exact walkerTurn_leftover hs ht t.due
  · rename_i c hc
    rw [hc, Work.isLeftover, Bool.and_eq_true] at ht
    have hcancelled : s.runs.scopes.isCancelled c.scope = true := hs.cancelled _ ht.1
    unfold clearTurn
    rw [hcancelled]
    rfl

theorem sweep_turn_leftover (hs : s.Since p) {t : Ready} (ht : t.work.isLeftover p = true)
    (dueFirst : Bool) : (s.turn dueFirst t).sweep p = s.sweep p := by
  rcases turn_leftover hs ht dueFirst with h | ⟨slot, run, hrun, h⟩ <;> rw [h]
  unfold note sweep
  rw [List.filter_cons_of_neg (by simp [Note.isLeftover, hrun])]

theorem nextRound_eq (left : Nat) (s : Sequencer) :
    (s.nextRound left).1 = { s with
      ready := (s.nextRound left).1.ready
      yielded := (s.nextRound left).1.yielded } := by
  unfold nextRound
  split <;> rfl

theorem mem_of_nextRound {left : Nat} {t : Ready}
    (h : t ∈ (s.nextRound left).1.ready ++ (s.nextRound left).1.yielded) :
    t ∈ s.ready ++ s.yielded := by
  unfold nextRound at h
  split at h
  · simpa [rejoin] using h
  · exact h

/-- When everything that is queued is left over, the queue gets empty and nothing else happens. -/
theorem settleFrom_leftover (hs : s.Since p)
    (hall : ∀ t ∈ s.ready ++ s.yielded, t.work.isLeftover p = true) (left : Nat) :
    s.settleFrom left = { s with ready := [], yielded := [] } := by
  fun_induction settleFrom left s with
  | case1 left s hnil =>
      have hyielded := yielded_of_nextRound hnil
      refine (nextRound_eq left s).trans ?_
      rw [hnil, hyielded]
  | case2 left s t rest hcons ih =>
      have hround := nextRound_eq left s
      have hsince : { (s.nextRound left).1 with ready := rest }.Since p := by
        rw [hround]
        exact ⟨hs.opened_le, hs.session, hs.cancelled, hs.epoch_le, hs.owners, hs.asleep⟩
      have hleft : ∀ u ∈ t :: rest ++ (s.nextRound left).1.yielded, u.work.isLeftover p = true := by
        intro u hu
        rw [← hcons] at hu
        exact hall u (mem_of_nextRound hu)
      rw [turn_false_leftover hsince (hleft t List.mem_cons_self)] at ih ⊢
      rw [ih hsince fun u hu => hleft u (List.mem_cons_of_mem t hu)]
      exact congrArg (fun s : Sequencer => { s with ready := [], yielded := [] }) hround

/-! ## What turns consist of -/

theorem sweep_dispatch (hsession : p.scopes.isCancelled s.runs.session = false) (run : Stamp)
    (script : Nat) (a : Action) :
    (s.dispatch run script a).sweep p = (s.sweep p).dispatch run script a := by
  have hclears : (s.clearsOf run a).filter (fun t => !t.work.isLeftover p) = s.clearsOf run a := by
    rw [List.filter_eq_self]
    intro t ht
    obtain ⟨c, rfl, -, hscope⟩ := mem_clearsOf ht
    rw [Work.isLeftover_eq_false (by rw [Work.scope, hscope]; exact hsession)]
    rfl
  unfold clearsOf at hclears
  unfold dispatch sweep
  dsimp only
  rw [List.filter_append, hclears]
  rfl

theorem sweep_sleep (s : Sequencer) (work : Work) (due : Nat) :
    (s.sleep work due).sweep p = (s.sweep p).sleep work due := rfl

theorem sweep_spawn {work : Work} (hwork : work.isLeftover p = false) (s : Sequencer) :
    (s.spawn work).sweep p = (s.sweep p).spawn work := by
  unfold spawn sweep
  rw [List.filter_append, List.filter_cons_of_pos (by simp [hwork])]
  rfl

theorem sweep_yield {work : Work} (hwork : work.isLeftover p = false) (s : Sequencer) :
    (s.yield work).sweep p = (s.sweep p).yield work := by
  unfold yield sweep
  rw [List.filter_cons_of_pos (by simp [hwork])]

theorem sweep_note {n : Note} (hn : n.isLeftover p = false) (s : Sequencer) :
    (s.note n).sweep p = (s.sweep p).note n := by
  unfold note sweep
  rw [List.filter_cons_of_pos (by simp [hn])]

theorem sweep_enter (s : Sequencer) (epoch : Nat) :
    (s.enter epoch).sweep p = (s.sweep p).enter epoch := by
  unfold enter
  rw [show (s.sweep p).runs = s.runs from rfl]
  split <;> rfl

theorem sweep_leave (s : Sequencer) (epoch : Nat) :
    (s.leave epoch).sweep p = (s.sweep p).leave epoch := by
  unfold leave
  rw [show (s.sweep p).runs = s.runs from rfl]
  split <;> rfl

theorem sweep_fire {c : Clear} (hc : p.runs < c.run) (s : Sequencer) :
    (s.fire c).sweep p = (s.sweep p).fire c := by
  unfold fire sweep
  rw [List.filter_cons_of_pos (by simpa [Note.isLeftover] using hc)]

/-! ## Turns of other tasks -/

theorem sweep_walk (hsession : p.scopes.isCancelled s.runs.session = false) {w : Walker}
    (hw : (Work.walk w).isLeftover p = false) (left : Nat) (rest : List Action) :
    (s.walk w left rest).sweep p = (s.sweep p).walk w left rest := by
  induction rest generalizing s left with
  | nil =>
      unfold walk
      exact sweep_leave s w.epoch
  | cons a rest ih =>
      unfold walk
      rw [show (s.sweep p).stepTime = s.stepTime from rfl]
      split
      · exact sweep_sleep s (.walk { w with rest := a :: rest }) _
      · cases left with
        | zero =>
            have hrest : (Work.walk { w with rest := a :: rest }).isLeftover p = false := hw
            exact sweep_yield hrest s
        | succ left =>
            dsimp only
            rw [ih (s := s.dispatch w.run w.script a) hsession left, sweep_dispatch hsession]

theorem sweep_walkerTurn (hsession : p.scopes.isCancelled s.runs.session = false) {w : Walker}
    (hw : (Work.walk w).isLeftover p = false) (due : Option Nat) :
    (s.walkerTurn w due).sweep p = (s.sweep p).walkerTurn w due := by
  unfold walkerTurn
  rw [show (s.sweep p).runs = s.runs from rfl, show (s.sweep p).now = s.now from rfl]
  split
  · exact sweep_leave s w.epoch
  · cases due with
    | none => exact sweep_walk hsession hw stepsPerTurn w.rest
    | some due =>
        cases hrest : w.rest with
        | nil => exact sweep_walk hsession hw stepsPerTurn []
        | cons a rest =>
            dsimp only
            split
            · have hdispatch := sweep_dispatch hsession w.run w.script a
              rw [← hdispatch]
              exact sweep_walk (s := s.dispatch w.run w.script a) hsession hw _ rest
            · exact sweep_sleep s (.walk w) due

theorem sweep_clearTurn {c : Clear} (hc : p.runs < c.run) (dueFirst : Bool) (s : Sequencer)
    (due : Option Nat) :
    (s.clearTurn dueFirst c due).sweep p = (s.sweep p).clearTurn dueFirst c due := by
  unfold clearTurn
  dsimp only
  rw [show (s.sweep p).runs = s.runs from rfl, show (s.sweep p).now = s.now from rfl,
    show (s.sweep p).sleepTime c.time = s.sleepTime c.time from rfl]
  split
  · rfl
  · split
    · exact sweep_fire hc s
    · exact sweep_sleep s (.clear c) _

theorem sweep_turn (hsession : p.scopes.isCancelled s.runs.session = false) {t : Ready}
    (ht : t.work.isLeftover p = false) (hrun : ∀ c, t.work = .clear c → p.runs < c.run)
    (dueFirst : Bool) : (s.turn dueFirst t).sweep p = (s.sweep p).turn dueFirst t := by
  unfold turn
  cases hwork : t.work with
  | walk w => exact sweep_walkerTurn hsession (hwork ▸ ht) t.due
  | clear c => exact sweep_clearTurn (hrun c hwork) dueFirst s t.due

/-! ## The clock -/

/-- Sleepers that are woken are not swept away. -/
theorem filter_woken {l : List Sleeper} (hl : ∀ t ∈ l, t.work.isLeftover p = false) :
    (l.map Sleeper.woken).filter (fun t => !t.work.isLeftover p) = l.map Sleeper.woken := by
  rw [List.filter_eq_self]
  intro t ht
  obtain ⟨sleeper, hsleeper, rfl⟩ := List.mem_map.mp ht
  exact congrArg (!·) (hl sleeper hsleeper)

theorem sweep_wakeAt (hs : s.Since p) (time : Nat) :
    (s.wakeAt time).sweep p = (s.sweep p).wakeAt time := by
  have hdue : ∀ t ∈ s.dueBy time, t.work.isLeftover p = false := by
    intro t ht
    exact hs.asleep t (List.mem_of_mem_filter ((List.mergeSort_perm _ _).mem_iff.mp ht))
  rw [wakeAt_eq, wakeAt_eq]
  unfold sweep
  dsimp only
  rw [List.filter_append, filter_woken hdue]
  rfl

theorem sweep_rejoin (s : Sequencer) : s.rejoin.sweep p = (s.sweep p).rejoin := by
  unfold rejoin sweep
  rw [List.filter_append]
  rfl

/-! ## Calls -/

theorem sweep_wakeCancelled (hs : ∀ t ∈ s.asleep, t.work.isLeftover p = false) :
    s.wakeCancelled.sweep p = (s.sweep p).wakeCancelled := by
  have hcancelled : ∀ t ∈ s.asleep.filter (fun t => s.isCancelled t.work),
      t.work.isLeftover p = false := by
    intro t ht
    exact hs t (List.mem_of_mem_filter ht)
  rw [wakeCancelled_eq, wakeCancelled_eq]
  unfold sweep
  dsimp only
  rw [List.filter_append, filter_woken hcancelled]
  rfl

theorem sweep_cancelCurrent (hs : s.Since p) :
    s.cancelCurrent.sweep p = (s.sweep p).cancelCurrent :=
  sweep_wakeCancelled (s := { s with runs := s.runs.cancelActive }) hs.asleep

theorem sweep_openRun (hs : s.Since p) (event : Event) :
    (s.sweep p).openRun event = ((s.openRun event).1, (s.openRun event).2.sweep p) := by
  have hwake := sweep_wakeCancelled (p := p)
    (s := { s with store := s.store.push s.store.snapshot, runs := s.runs.start.2 }) hs.asleep
  unfold openRun beginRun
  dsimp only
  rw [sweep_note rfl, hwake]
  rfl

/-- A new run is not cancelled by the past. -/
theorem openRun_isCancelled (hs : s.Since p) (event : Event) :
    p.scopes.isCancelled (s.openRun event).1.scope = false := by
  have hnumber : (s.openRun event).1.scope.number = s.runs.scopes.opened :=
    s.runs.cancelActive_opened
  have haround : (s.openRun event).1.scope.around = some s.runs.session.number :=
    congrArg (fun scope : Scope => some scope.number) s.runs.cancelActive_session
  obtain ⟨hsession, -⟩ := Scopes.isCancelled_eq_false_iff.mp hs.session
  refine Scopes.isCancelled_eq_false_iff.mpr ⟨?_, ?_⟩
  · intro hmem
    rw [hnumber] at hmem
    exact Nat.not_lt_of_le hs.opened_le (p.cancelled_lt _ hmem)
  · intro n hn heq
    rw [haround] at heq
    exact hsession (Option.some.inj heq ▸ hn)

theorem sweep_startScript (hsession : p.scopes.isCancelled s.runs.session = false)
    {run : ActiveRun} (hrun : p.scopes.isCancelled run.scope = false) (epoch : Nat)
    (script : Script × Nat) :
    (startScript run epoch s script).sweep p = startScript run epoch (s.sweep p) script := by
  have hdispatch := sweep_dispatch hsession run.id script.2 script.1.head
  unfold startScript
  dsimp only
  rw [← hdispatch]
  split
  · rfl
  · rw [sweep_spawn (Work.isLeftover_eq_false hrun), sweep_enter]

theorem sweep_startScripts (hsession : p.scopes.isCancelled s.runs.session = false)
    {run : ActiveRun} (hrun : p.scopes.isCancelled run.scope = false) (epoch : Nat)
    (scripts : List Script) (place : Nat) :
    (s.startScripts run epoch scripts place).sweep p =
      (s.sweep p).startScripts run epoch scripts place := by
  induction scripts generalizing s place with
  | nil => rfl
  | cons script scripts ih =>
      have hruns := runs_of_frame (startScript_frame s run epoch (script, place))
      rw [startScripts_cons, startScripts_cons, ← sweep_startScript hsession hrun, ih]
      rw [hruns]
      exact hsession

theorem sweep_start (hs : s.Since p) (event : Event) :
    (s.sweep p).start event = ((s.start event).1, (s.start event).2.sweep p) := by
  have hsession : p.scopes.isCancelled (s.openRun event).2.runs.session = false := by
    have hruns : (s.openRun event).2.runs.session = s.runs.session := s.runs.cancelActive_session
    rw [hruns]
    exact hs.session
  unfold start
  rw [show (s.sweep p).program = s.program from rfl]
  split
  · rfl
  · rw [sweep_openRun hs]
    dsimp only
    rw [sweep_startScripts hsession (openRun_isCancelled hs event)]
    rfl

theorem sweep_run (hs : s.Since p) : (s.sweep p).run = (s.run.1, s.run.2.sweep p) := by
  unfold run
  rw [show (s.sweep p).isPlaying = s.isPlaying from rfl]
  split
  · rfl
  · exact sweep_start hs .flagClicked

theorem sweep_undo (hs : s.Since p) : (s.sweep p).undo = (s.undo.1, s.undo.2.sweep p) := by
  unfold undo
  dsimp only
  rw [← sweep_cancelCurrent hs, show (s.cancelCurrent.sweep p).store = s.cancelCurrent.store from rfl]
  split
  · rw [sweep_note rfl]
    rfl
  · rfl

theorem sweep_reset (hs : s.Since p) : s.reset.sweep p = (s.sweep p).reset := by
  rw [reset_eq, sweep_wakeCancelled (s := { s with
    store := s.store.reset
    runs := s.runs.reset
    inFlight := 0
    journal := .reset s.now :: s.journal }) hs.asleep]
  rfl

theorem sweep_call (hs : s.Since p) (c : Call) :
    (s.sweep p).call c = ((s.call c).1, (s.call c).2.sweep p) := by
  cases c with
  | start event =>
      show ((s.sweep p).start event).map Reply.started id = _
      rw [sweep_start hs]
      rfl
  | run =>
      show (s.sweep p).run.map Reply.started id = _
      rw [sweep_run hs]
      rfl
  | undo =>
      show (s.sweep p).undo.map Reply.undone id = _
      rw [sweep_undo hs]
      rfl
  | reset => exact congrArg (Prod.mk Reply.done) (sweep_reset hs).symm
  | replaceProgram program => rfl
  | recordPointer point => rfl
  | readPointer => rfl
  | recordDrawn point => rfl

end Sequencer

end SpriteStage
