import Mathlib.Data.Multiset.Filter
import Mathlib.Logic.Relation
import SpriteStage.Proofs.Sequencer.WellFormed
import SpriteStage.Proofs.Sprite.Slots

/-!
# Sequencers without their walkers

What becomes of the slots of the sprite depends on the store, the runs, the clock and the clears that
are still to come, but not on the order in which tasks wait. A ledger holds just that, with each clear
as an alarm at the instant at which it is due. `Ledger.Happens` lists what can happen to a ledger, and
`goes_moves` says that a schedule does nothing else. So a fact about slots is proved by one case
for each thing that can happen.
-/

namespace SpriteStage

/-- A clear that is still to come. -/
structure Alarm where
  clear : Clear
  /-- The instant at which it fires. -/
  due : Nat

structure Ledger where
  store : Store
  journal : List Note
  runs : Runs
  now : Nat
  lag : Nat
  alarms : Multiset Alarm

namespace Ledger

def alarmsOf (v : Ledger) (run : Stamp) (a : Action) : Multiset Alarm :=
  ((a.effect.clears run v.runs.session).map fun c =>
    (⟨c, v.now + (c.time.timerMillis + v.lag)⟩ : Alarm) : List Alarm)

/-- What can happen at once. On a clock that is `punctual` no alarm is passed over, and none that is
set is put off. -/
inductive Happens (punctual : Prop) : Ledger → Ledger → Prop where
  /-- A step of the current run is executed. -/
  | executes {v : Ledger} (step : Step) (hcurrent : v.runs.current = some step.run)
      (htime : step.time = v.now) :
      Happens punctual v { v with
        store := v.store.applyStep step.run
          (step.action.apply v.store.motion step.scene).motion step.action.effect
        journal := .executed step :: v.journal
        alarms := v.alarmsOf step.run step.action + v.alarms }
  /-- An alarm goes off. -/
  | fires {v : Ledger} (alarm : Alarm) (others : Multiset Alarm)
      (halarms : v.alarms = alarm ::ₘ others) (hdue : alarm.due ≤ v.now) :
      Happens punctual v { v with
        store := v.store.clear alarm.clear.slot alarm.clear.run
        journal := .cleared v.now alarm.clear.slot alarm.clear.run
          (v.store.owns alarm.clear.slot alarm.clear.run) :: v.journal
        alarms := others }
  /-- An alarm of an earlier session is dropped. -/
  | ends {v : Ledger} (alarm : Alarm) (others : Multiset Alarm)
      (halarms : v.alarms = alarm ::ₘ others)
      (hcancelled : v.runs.scopes.isCancelled alarm.clear.scope = true) :
      Happens punctual v { v with alarms := others }
  | opens {v : Ledger} (event : Event) :
      Happens punctual v { v with
        store := v.store.push v.store.snapshot
        journal := .started v.now v.runs.start.1.id event v.store.snapshot :: v.journal
        runs := v.runs.start.2 }
  | cancels {v : Ledger} : Happens punctual v { v with runs := v.runs.cancelActive }
  | undoes {v : Ledger} (entry : Snapshot) (older : List Snapshot)
      (hhistory : v.store.history = entry :: older) :
      Happens punctual v { v with
        store := { v.store with history := older }.restore entry
        journal := .undone v.now :: v.journal }
  | resets {v : Ledger} :
      Happens punctual v { v with
        store := v.store.reset
        journal := .reset v.now :: v.journal
        runs := v.runs.reset }
  | passes {v : Ledger} (ms : Nat) (alarms : Multiset Alarm)
      (hsame : alarms.map Alarm.clear = v.alarms.map Alarm.clear)
      (honTime : punctual → alarms = v.alarms ∧ ∀ alarm ∈ v.alarms, v.now + ms ≤ alarm.due) :
      Happens punctual v { v with now := v.now + ms, alarms }

abbrev Goes (punctual : Prop) : Ledger → Ledger → Prop :=
  Relation.ReflTransGen (Happens punctual)

end Ledger

namespace Sequencer

/-- A schedule is on time when time passes only while no task is ready or yielded, and not beyond an
instant at which one is due. The turns can be in any order. -/
def IsOnTime (s : Sequencer) : Move → Prop
  | .pass ms => s.ready = [] ∧ s.yielded = [] ∧ ∀ t ∈ s.asleep, s.now + ms ≤ t.due
  | _ => True

def OnTime : Sequencer → List Move → Prop
  | _, [] => True
  | s, m :: ms => s.IsOnTime m ∧ OnTime (s.move m) ms

instance (s : Sequencer) : (m : Move) → Decidable (s.IsOnTime m)
  | .pass ms => inferInstanceAs
      (Decidable (s.ready = [] ∧ s.yielded = [] ∧ ∀ t ∈ s.asleep, s.now + ms ≤ t.due))
  | .turn _ _ => inferInstanceAs (Decidable True)
  | .call _ => inferInstanceAs (Decidable True)
  | .rejoin => inferInstanceAs (Decidable True)

instance decidableOnTime : (s : Sequencer) → (ms : List Move) → Decidable (s.OnTime ms)
  | _, [] => inferInstanceAs (Decidable True)
  | s, m :: ms =>
    let _ := decidableOnTime (s.move m) ms
    inferInstanceAs (Decidable (s.IsOnTime m ∧ (s.move m).OnTime ms))

/-- The alarm of a task. A clear that did not sleep yet counts from now. -/
def alarm? (s : Sequencer) (t : Ready) : Option Alarm :=
  match t.work with
  | .walk _ => none
  | .clear c => some ⟨c, t.due.getD (s.now + s.sleepTime c.time)⟩

def alarms (s : Sequencer) : Multiset Alarm := (s.tasks : Multiset Ready).filterMap s.alarm?

/-- What matters of a sequencer for the slots of the sprite. -/
def ledger (s : Sequencer) : Ledger where
  store := s.store
  journal := s.journal
  runs := s.runs
  now := s.now
  lag := s.lag
  alarms := s.alarms

variable {s s' : Sequencer}

theorem alarm?_of_frame (h : s'.frame = s.frame) : s'.alarm? = s.alarm? := by
  simp only [frame, Prod.mk.injEq] at h
  funext t
  simp only [alarm?, sleepTime, h]

theorem alarm?_fresh (s : Sequencer) (c : Clear) :
    s.alarm? ⟨.clear c, none⟩ = some ⟨c, s.now + (c.time.timerMillis + s.lag)⟩ := by
  unfold alarm?
  dsimp only
  rw [Option.getD_none, sleepTime]

theorem mem_alarms {alarm : Alarm} : alarm ∈ s.alarms ↔
    ∃ t ∈ s.tasks, t.work = .clear alarm.clear ∧
      alarm.due = t.due.getD (s.now + s.sleepTime alarm.clear.time) := by
  unfold alarms
  rw [Multiset.mem_filterMap]
  constructor
  · rintro ⟨⟨work, due⟩, ht, hsome⟩
    cases work with
    | walk w => cases hsome
    | clear c =>
        cases hsome
        exact ⟨_, ht, rfl, rfl⟩
  · rintro ⟨⟨work, due⟩, ht, hwork, hdue⟩
    cases hwork
    refine ⟨_, ht, congrArg some ?_⟩
    rw [← hdue]

theorem alarms_of_perm (htasks : s'.tasks.Perm s.tasks) (hframe : s'.frame = s.frame) :
    s'.alarms = s.alarms := by
  unfold alarms
  rw [alarm?_of_frame hframe, Multiset.coe_eq_coe.mpr htasks]

theorem alarms_walk {w : Walker} {due : Option Nat}
    (htasks : s'.tasks.Perm (⟨.walk w, due⟩ :: s.tasks)) (hframe : s'.frame = s.frame) :
    s'.alarms = s.alarms := by
  unfold alarms
  rw [alarm?_of_frame hframe, Multiset.coe_eq_coe.mpr htasks, ← Multiset.cons_coe,
    Multiset.filterMap_cons_none _ _ rfl]

theorem alarms_clear {c : Clear} {due : Option Nat}
    (htasks : s'.tasks.Perm (⟨.clear c, due⟩ :: s.tasks)) (hframe : s'.frame = s.frame) :
    s'.alarms = ⟨c, due.getD (s.now + s.sleepTime c.time)⟩ ::ₘ s.alarms := by
  unfold alarms
  rw [alarm?_of_frame hframe, Multiset.coe_eq_coe.mpr htasks, ← Multiset.cons_coe]
  exact Multiset.filterMap_cons_some _ _ _ rfl

/-- A ledger stays the same when a walker is put among the tasks, or moved. -/
theorem ledger_eq (hstore : s'.store = s.store) (hjournal : s'.journal = s.journal)
    (hframe : s'.frame = s.frame) (halarms : s'.alarms = s.alarms) : s'.ledger = s.ledger := by
  simp only [frame, Prod.mk.injEq] at hframe
  simp only [ledger, hstore, hjournal, hframe, halarms]

@[simp] theorem ledger_leave (s : Sequencer) (epoch : Nat) : (s.leave epoch).ledger = s.ledger := by
  refine ledger_eq ?_ ?_ (leave_frame s epoch) (alarms_of_perm ?_ (leave_frame s epoch))
  · unfold leave
    split <;> rfl
  · unfold leave
    split <;> rfl
  · rw [tasks_leave]

@[simp] theorem ledger_enter (s : Sequencer) (epoch : Nat) : (s.enter epoch).ledger = s.ledger := by
  refine ledger_eq ?_ ?_ (enter_frame s epoch) (alarms_of_perm ?_ (enter_frame s epoch))
  · unfold enter
    split <;> rfl
  · unfold enter
    split <;> rfl
  · rw [tasks_enter]

@[simp] theorem ledger_sleep_walk (s : Sequencer) (w : Walker) (due : Nat) :
    (s.sleep (.walk w) due).ledger = s.ledger :=
  ledger_eq rfl rfl rfl (alarms_walk (tasks_sleep_perm s (.walk w) due) rfl)

@[simp] theorem ledger_yield_walk (s : Sequencer) (w : Walker) :
    (s.yield (.walk w)).ledger = s.ledger :=
  ledger_eq rfl rfl rfl (alarms_walk (tasks_yield_perm s (.walk w)) rfl)

@[simp] theorem ledger_spawn_walk (s : Sequencer) (w : Walker) :
    (s.spawn (.walk w)).ledger = s.ledger :=
  ledger_eq rfl rfl rfl (alarms_walk (tasks_spawn_perm s (.walk w)) rfl)

/-! ## Steps -/

theorem alarms_dispatch (s : Sequencer) (run : Stamp) (script : Nat) (a : Action) :
    (s.dispatch run script a).alarms = s.ledger.alarmsOf run a + s.alarms := by
  have heffect : (s.outcome a).effect = a.effect := Action.apply_effect a _ _
  have hclears : (s.clearsOf run a : Multiset Ready).filterMap s.alarm? =
      s.ledger.alarmsOf run a := by
    unfold clearsOf Ledger.alarmsOf
    have halarm : (s.alarm? ∘ fun c => (⟨.clear c, none⟩ : Ready)) =
        some ∘ fun c => (⟨c, s.now + (c.time.timerMillis + s.lag)⟩ : Alarm) :=
      funext s.alarm?_fresh
    rw [heffect, Multiset.filterMap_coe, List.filterMap_map, halarm, List.filterMap_eq_map]
    rfl
  unfold alarms
  rw [alarm?_of_frame (dispatch_frame s run script a),
    Multiset.coe_eq_coe.mpr (s.tasks_dispatch_perm run script a), ← Multiset.coe_add,
    Multiset.filterMap_add, hclears]

variable {punctual : Prop}

theorem happens_dispatch {run : Stamp} (hrun : s.current = some run) (script : Nat) (a : Action) :
    Ledger.Happens punctual s.ledger (s.dispatch run script a).ledger := by
  have heffect : (s.outcome a).effect = a.effect := Action.apply_effect a _ _
  have hledger : (s.dispatch run script a).ledger =
      { s.ledger with
        store := s.store.applyStep run (a.apply s.store.motion s.scene).motion a.effect
        journal := .executed (s.stepOf run script a) :: s.journal
        alarms := s.ledger.alarmsOf run a + s.alarms } := by
    rw [← alarms_dispatch s run script a, ← heffect]
    rfl
  rw [hledger]
  exact Ledger.Happens.executes (v := s.ledger) (s.stepOf run script a) hrun rfl

/-! ## Turns -/

theorem goes_walkerTurn {w : Walker} (hw : w.Fits s.runs) (due : Option Nat) :
    Ledger.Goes punctual s.ledger (s.walkerTurn w due).ledger := by
  cases live : s.isCancelled (.walk w) with
  | true =>
      rw [walkerTurn_of_cancelled live, ledger_leave]
  | false =>
      have hcurrent : s.current = some w.run := Runs.current_of_active (hw.live live).1
      have hcurrent {s' : Sequencer} (hframe : s'.frame = s.frame) : s'.current = some w.run := by
        unfold current
        rw [runs_of_frame hframe]
        exact hcurrent
      refine walkerTurn_induction
        (P := fun s' _ => Ledger.Goes punctual s.ledger s'.ledger ∧ s'.frame = s.frame)
        (Q := fun s' => Ledger.Goes punctual s.ledger s'.ledger) ?_ ?_ ?_ ?_ live
        ⟨Relation.ReflTransGen.refl, rfl⟩ ?_ ?_
      · rintro s' a rest - ⟨hgoes, hframe⟩
        exact ⟨hgoes.tail (happens_dispatch (hcurrent hframe) w.script a), hframe⟩
      · rintro s' ⟨hgoes, -⟩
        rwa [ledger_leave]
      · rintro s' a rest - ⟨hgoes, -⟩
        rwa [ledger_sleep_walk]
      · rintro s' a rest - ⟨hgoes, -⟩
        rwa [ledger_yield_walk]
      · intro a rest _ _ _ _
        exact ⟨.single (happens_dispatch (hcurrent rfl) w.script a), rfl⟩
      · intro d _ _
        rw [ledger_sleep_walk]

theorem goes_turnAt (hs : s.WellFormed) (place : Nat) (dueFirst : Bool) :
    Ledger.Goes punctual s.ledger (s.turnAt place dueFirst).ledger := by
  cases ht : s.ready[place]? with
  | none => rw [turnAt_of_none ht]
  | some t =>
      have htasks := tasks_without_perm ht
      have hfits := hs.fits t (htasks.mem_iff.mpr List.mem_cons_self)
      obtain ⟨work, due⟩ := t
      rw [turnAt_of_some ht]
      cases work with
      | walk w =>
          have halarms : s.alarms = (s.without place).alarms := alarms_walk htasks rfl
          have hledger : (s.without place).ledger = s.ledger := ledger_eq rfl rfl rfl halarms.symm
          rw [← hledger]
          exact goes_walkerTurn (s := s.without place) hfits due
      | clear c =>
          have halarms : s.alarms = ⟨c, due.getD (s.now + s.sleepTime c.time)⟩ ::ₘ
              (s.without place).alarms := alarms_clear htasks rfl
          show Ledger.Goes punctual s.ledger ((s.without place).clearTurn dueFirst c due).ledger
          rcases clearTurn_cases dueFirst (s.without place) c due with
            ⟨h, hcancelled⟩ | ⟨h, hdue⟩ | ⟨-, -, h⟩ <;> rw [h]
          · exact .single (.ends (v := s.ledger) _ _ halarms hcancelled)
          · exact .single (.fires (v := s.ledger) _ _ halarms hdue)
          · -- the clear falls asleep and stays the alarm that it was
            have hsleep := tasks_sleep_perm (s.without place) (.clear c)
              (due.getD (s.now + s.sleepTime c.time))
            have hslept := alarms_clear hsleep rfl
            have hledger : ((s.without place).sleep (.clear c)
                (due.getD (s.now + s.sleepTime c.time))).ledger = s.ledger :=
              ledger_eq rfl rfl rfl (hslept.trans halarms.symm)
            exact hledger ▸ Relation.ReflTransGen.refl

/-! ## Calls -/

theorem goes_startScripts {run : ActiveRun} (hrun : s.current = some run.id) (epoch : Nat)
    (scripts : List Script) (place : Nat) :
    Ledger.Goes punctual s.ledger (s.startScripts run epoch scripts place).ledger := by
  induction scripts generalizing s place with
  | nil => exact Relation.ReflTransGen.refl
  | cons script scripts ih =>
      have hscript : (s.startScript run epoch (script, place)).ledger =
          (s.dispatch run.id place script.head).ledger := by
        unfold startScript
        dsimp only
        split
        · rfl
        · rw [ledger_spawn_walk, ledger_enter]
      have hcurrent : (s.startScript run epoch (script, place)).current = some run.id := by
        unfold current
        rw [runs_of_frame (startScript_frame s run epoch (script, place))]
        exact hrun
      rw [startScripts_cons]
      refine Relation.ReflTransGen.trans ?_ (ih hcurrent (place + 1))
      rw [hscript]
      exact .single (happens_dispatch hrun place script.head)

theorem happens_openRun (s : Sequencer) (event : Event) :
    Ledger.Happens punctual s.ledger (s.openRun event).2.ledger := by
  have halarms : (s.openRun event).2.alarms = s.alarms :=
    congrArg (Multiset.filterMap s.alarm?) (Multiset.coe_eq_coe.mpr (tasks_openRun_perm s event))
  have hledger : (s.openRun event).2.ledger =
      ⟨s.store.push s.store.snapshot,
        .started s.now s.runs.start.1.id event s.store.snapshot :: s.journal, s.runs.start.2, s.now,
        s.lag, (s.openRun event).2.alarms⟩ := rfl
  rw [hledger, halarms]
  exact Ledger.Happens.opens (v := s.ledger) event

theorem happens_cancelCurrent (s : Sequencer) :
    Ledger.Happens punctual s.ledger s.cancelCurrent.ledger := by
  have halarms : s.cancelCurrent.alarms = s.alarms :=
    congrArg (Multiset.filterMap s.alarm?) (Multiset.coe_eq_coe.mpr (tasks_wakeCancelled_perm _))
  have hledger : s.cancelCurrent.ledger =
      ⟨s.store, s.journal, s.runs.cancelActive, s.now, s.lag, s.cancelCurrent.alarms⟩ := rfl
  rw [hledger, halarms]
  exact Ledger.Happens.cancels (v := s.ledger)

theorem goes_undo (s : Sequencer) : Ledger.Goes punctual s.ledger s.undo.2.ledger := by
  have hcancel : Ledger.Happens punctual s.ledger s.cancelCurrent.ledger := happens_cancelCurrent s
  rcases undo_cases s with ⟨-, heq⟩ | ⟨entry, older, hhistory, heq⟩ <;> rw [heq]
  · exact .single hcancel
  · exact .tail (.single hcancel) (.undoes (v := s.cancelCurrent.ledger) entry older hhistory)

theorem ledger_reset (s : Sequencer) : s.reset.ledger =
    ⟨s.store.reset, .reset s.now :: s.journal, s.runs.reset, s.now, s.lag, s.alarms⟩ := by
  have halarms : s.reset.alarms = s.alarms :=
    congrArg (Multiset.filterMap s.alarm?) (Multiset.coe_eq_coe.mpr (tasks_reset_perm s))
  rw [← halarms]
  rfl

theorem happens_reset (s : Sequencer) : Ledger.Happens punctual s.ledger s.reset.ledger := by
  rw [ledger_reset]
  exact Ledger.Happens.resets (v := s.ledger)

/-! ## Moves -/

theorem happens_pass (ms : Nat) (honTime : punctual → s.IsOnTime (.pass ms)) :
    Ledger.Happens punctual s.ledger (s.wakeAt (s.now + ms)).ledger := by
  have hclears (s : Sequencer) : s.alarms.map Alarm.clear =
      (s.tasks : Multiset Ready).filterMap fun t =>
        match t.work with
        | .walk _ => none
        | .clear c => some c := by
    unfold alarms
    rw [Multiset.map_filterMap]
    congr 1
    funext t
    unfold alarm?
    cases t.work <;> rfl
  refine Ledger.Happens.passes (v := s.ledger) ms (s.wakeAt (s.now + ms)).alarms ?_ ?_
  · show (s.wakeAt (s.now + ms)).alarms.map Alarm.clear = s.alarms.map Alarm.clear
    rw [hclears, hclears, Multiset.coe_eq_coe.mpr (s.tasks_wakeAt_perm _)]
  · intro hp
    obtain ⟨hready, hyielded, hdue⟩ := honTime hp
    -- all tasks sleep, so that their instants do not depend on the clock
    have hasleep {t : Ready} (ht : t ∈ s.tasks) : ∃ due, t.due = some due ∧ s.now + ms ≤ due := by
      rw [tasks_eq_asleep hready hyielded] at ht
      obtain ⟨u, hu, rfl⟩ := List.mem_map.mp ht
      exact ⟨u.due, rfl, hdue u hu⟩
    constructor
    · unfold alarms
      rw [Multiset.coe_eq_coe.mpr (s.tasks_wakeAt_perm _)]
      refine congrArg Multiset.ofList (List.filterMap_congr ?_)
      intro t ht
      obtain ⟨due, hsome, -⟩ := hasleep ht
      simp only [alarm?, hsome, Option.getD_some]
    · intro alarm halarm
      obtain ⟨t, ht, -, htime⟩ := mem_alarms.mp halarm
      obtain ⟨due, hsome, hle⟩ := hasleep ht
      rw [htime, hsome]
      exact hle

/-- A move does nothing to a ledger but what can happen to one. -/
theorem goes_move (hs : s.WellFormed) (m : Move) (honTime : punctual → s.IsOnTime m) :
    Ledger.Goes punctual s.ledger (s.move m).ledger := by
  cases m with
  | call c =>
      rw [move_call]
      rcases call_cases s c with ⟨event, heq⟩ | heq | heq | ⟨_, _, _, heq⟩ <;> rw [heq]
      · rcases start_cases s event with ⟨-, heq⟩ | ⟨-, heq⟩ <;> rw [heq]
        refine Relation.ReflTransGen.head (happens_openRun s event) ?_
        exact goes_startScripts (Runs.current_of_active (openRun_active s event)) _ _ _
      · exact goes_undo s
      · exact .single (happens_reset s)
      · exact Relation.ReflTransGen.refl
  | turn place dueFirst => exact goes_turnAt hs place dueFirst
  | pass ms => exact .single (happens_pass ms honTime)
  | rejoin =>
      have hledger : s.rejoin.ledger = s.ledger :=
        ledger_eq rfl rfl rfl (alarms_of_perm s.tasks_rejoin_perm rfl)
      rw [move_rejoin, hledger]

/-- A schedule does nothing to a ledger but what can happen to one. -/
theorem goes_moves (hs : s.WellFormed) {ms : List Move} (honTime : punctual → s.OnTime ms) :
    Ledger.Goes punctual s.ledger (s.moves ms).ledger := by
  induction ms generalizing s with
  | nil => exact Relation.ReflTransGen.refl
  | cons m ms ih =>
      exact (goes_move hs m fun hp => (honTime hp).1).trans (ih (hs.move m) fun hp => (honTime hp).2)

end Sequencer

end SpriteStage
