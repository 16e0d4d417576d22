import Mathlib.Algebra.Order.Group.Multiset
import SpriteStage.Proofs.Sequencer.Expiry

/-!
# Timed clears

Every step that writes a slot for a time asks for one clear, and that clear fires at the instant at
which the time is over, once and no matter what became of the run of the step. It resets the slot if
the step that touched the slot last is one of its own run, and changes nothing otherwise. The
invariant is an account for each slot and run: the instants at which clears were asked for since the
last reset are those at which clears fired together with those at which clears are to come.
-/

namespace SpriteStage

namespace Note

def isReset : Note → Bool
  | .reset _ => true
  | _ => false

/-- The instant for which a step of a run asks for the clear of a slot. -/
def asked? (lag : Nat) (slot : Slot) (run : Stamp) : Note → Option Nat
  | .executed step =>
    if step.run = run then
      (step.action.effect.on slot).time?.map fun time => step.time + (time.timerMillis + lag)
    else none
  | _ => none

def fired? (slot : Slot) (run : Stamp) : Note → Option Nat
  | .cleared time other stamp _ => if other = slot ∧ stamp = run then some time else none
  | _ => none

end Note

def Alarm.due? (slot : Slot) (run : Stamp) (alarm : Alarm) : Option Nat :=
  if alarm.clear.slot = slot ∧ alarm.clear.run = run then some alarm.due else none

def sinceReset (journal : List Note) : List Note := journal.takeWhile (!·.isReset)

def askedFor (notes : List Note) (lag : Nat) (slot : Slot) (run : Stamp) : Multiset Nat :=
  (notes.filterMap (Note.asked? lag slot run) : List Nat)

def firedAt (notes : List Note) (slot : Slot) (run : Stamp) : Multiset Nat :=
  (notes.filterMap (Note.fired? slot run) : List Nat)

def dueAt (alarms : Multiset Alarm) (slot : Slot) (run : Stamp) : Multiset Nat :=
  alarms.filterMap (Alarm.due? slot run)

/-- The run of the step that touched a slot last, if it was a step that did. -/
def lastWriter (journal : List Note) (slot : Slot) : Option Stamp :=
  match lastTouch journal slot with
  | some (.written step) => some step.run
  | _ => none

section Accounts

variable {notes : List Note} {lag : Nat} {slot : Slot} {run : Stamp}

theorem sinceReset_cons {n : Note} (h : n.isReset = false) (journal : List Note) :
    sinceReset (n :: journal) = n :: sinceReset journal :=
  List.takeWhile_cons_of_pos (by rw [h]; rfl)

theorem askedFor_cons (n : Note) : askedFor (n :: notes) lag slot run =
    ((n.asked? lag slot run).toList : Multiset Nat) + askedFor notes lag slot run := by
  unfold askedFor
  rw [List.filterMap_cons]
  cases n.asked? lag slot run <;> rfl

theorem firedAt_cons (n : Note) : firedAt (n :: notes) slot run =
    ((n.fired? slot run).toList : Multiset Nat) + firedAt notes slot run := by
  unfold firedAt
  rw [List.filterMap_cons]
  cases n.fired? slot run <;> rfl

theorem executed_of_cons {n : Note} {journal : List Note} {step : Step} (h : n.isReset = false)
    (hstep : n.step? = none) (hmem : .executed step ∈ sinceReset (n :: journal)) :
    .executed step ∈ sinceReset journal := by
  rw [sinceReset_cons h] at hmem
  rcases List.mem_cons.mp hmem with rfl | hmem
  · cases hstep
  · exact hmem

/-- A note that is neither of a step nor of a clear leaves the accounts as they are. -/
theorem accounts_cons (n : Note) (journal : List Note) (lag : Nat) (slot : Slot) (run : Stamp)
    (h : n.isReset = false) (hasked : n.asked? lag slot run = none)
    (hfired : n.fired? slot run = none) :
    askedFor (sinceReset (n :: journal)) lag slot run = askedFor (sinceReset journal) lag slot run ∧
      firedAt (sinceReset (n :: journal)) slot run = firedAt (sinceReset journal) slot run := by
  rw [sinceReset_cons h, askedFor_cons, firedAt_cons, hasked, hfired]
  exact ⟨zero_add _, zero_add _⟩

theorem dueAt_cons (alarm : Alarm) (alarms : Multiset Alarm) :
    dueAt (alarm ::ₘ alarms) slot run =
      ((alarm.due? slot run).toList : Multiset Nat) + dueAt alarms slot run := by
  unfold dueAt
  cases h : alarm.due? slot run with
  | none =>
      rw [Multiset.filterMap_cons_none _ _ h]
      exact (zero_add _).symm
  | some due =>
      rw [Multiset.filterMap_cons_some _ _ _ h]
      rfl

theorem dueAt_add (alarms others : Multiset Alarm) :
    dueAt (alarms + others) slot run = dueAt alarms slot run + dueAt others slot run :=
  Multiset.filterMap_add _ _ _

theorem dueAt_eq_zero {alarms : Multiset Alarm} (h : ∀ alarm ∈ alarms, alarm.clear.run ≠ run) :
    dueAt alarms slot run = 0 := by
  refine Multiset.eq_zero_of_forall_notMem ?_
  intro due hdue
  obtain ⟨alarm, halarm, hsome⟩ := (Multiset.mem_filterMap _ _).mp hdue
  obtain ⟨⟨-, hrun⟩, -⟩ := Option.ite_none_right_eq_some.mp hsome
  exact h alarm halarm hrun

theorem dueAt_filter {alarms : Multiset Alarm} (p : Alarm → Prop) [DecidablePred p]
    (h : ∀ alarm ∈ alarms, alarm.clear.run = run → p alarm) :
    dueAt (alarms.filter p) slot run = dueAt alarms slot run := by
  induction alarms using Multiset.induction_on with
  | empty => rfl
  | cons alarm alarms ih =>
      have ih := ih fun other hother => h other (Multiset.mem_cons_of_mem hother)
      by_cases hp : p alarm
      · rw [Multiset.filter_cons_of_pos _ hp, dueAt_cons, dueAt_cons, ih]
      · have hdue : alarm.due? slot run = none := by
          refine if_neg ?_
          rintro ⟨-, hrun⟩
          exact hp (h alarm (Multiset.mem_cons_self _ _) hrun)
        rw [Multiset.filter_cons_of_neg _ hp, dueAt_cons, hdue, ih]
        exact (zero_add _).symm

/-- The alarms that a step sets are due at the instants for which the step asks. -/
theorem dueAt_alarmsOf (v : Ledger) (step : Step) (htime : step.time = v.now) :
    dueAt (v.alarmsOf step.run step.action) slot run =
      (((Note.executed step).asked? v.lag slot run).toList : Multiset Nat) := by
  have hdue (c : Clear) : Alarm.due? slot run ⟨c, v.now + (c.time.timerMillis + v.lag)⟩ =
      if c.slot = slot ∧ c.run = run then some (step.time + (c.time.timerMillis + v.lag))
      else none := by
    unfold Alarm.due?
    rw [htime]
  unfold dueAt Ledger.alarmsOf Effect.clears Note.asked?
  rw [Multiset.filterMap_coe, List.filterMap_map, Function.comp_def, funext hdue]
  refine congrArg Multiset.ofList ?_
  cases htext : step.action.effect.text.time? <;>
    cases hanimation : step.action.effect.animation.time? <;> cases slot <;>
    by_cases hrun : step.run = run <;> simp [Effect.on, htext, hanimation, hrun]

end Accounts

namespace Ledger

variable {punctual : Prop} {base : Stamp} {v v' : Ledger}

theorem of_mem_alarmsOf {alarm : Alarm} {run : Stamp} {a : Action}
    (h : alarm ∈ v.alarmsOf run a) :
    alarm.clear.run = run ∧ alarm.clear.scope = v.runs.session ∧ v.now ≤ alarm.due := by
  obtain ⟨c, hc, rfl⟩ := List.mem_map.mp (Multiset.mem_coe.mp h)
  obtain ⟨hrun, hscope⟩ := mem_clears hc
  exact ⟨hrun, hscope, Nat.le_add_right _ _⟩

/-- The account of a ledger. `base` is the number of the last run before the last reset. -/
structure Accounted (punctual : Prop) (base : Stamp) (v : Ledger) : Prop where
  runs : v.runs.WellFormed
  fits : ∀ alarm ∈ v.alarms, (Work.clear alarm.clear).Fits v.runs
  base_le : base ≤ v.runs.lastRun
  current : ∀ run, v.runs.current = some run → base < run
  /-- The alarms of the session are those of the runs since the reset. -/
  session : ∀ alarm ∈ v.alarms, alarm.clear.scope = v.runs.session ↔ base < alarm.clear.run
  owner : ∀ slot run, v.store.owner slot = some run → base < run
  steps : ∀ step, .executed step ∈ sinceReset v.journal → base < step.run
  ahead : punctual → ∀ alarm ∈ v.alarms, v.now ≤ alarm.due
  account : punctual → ∀ slot run, base < run →
    askedFor (sinceReset v.journal) v.lag slot run =
      firedAt (sinceReset v.journal) slot run + dueAt v.alarms slot run

namespace Accounted

theorem executes (h : v.Accounted punctual base) (step : Step)
    (hcurrent : v.runs.current = some step.run) (htime : step.time = v.now) :
    Accounted punctual base { v with
      store := v.store.applyStep step.run
        (step.action.apply v.store.motion step.scene).motion step.action.effect
      journal := .executed step :: v.journal
      alarms := v.alarmsOf step.run step.action + v.alarms } := by
  have hbase := h.current _ hcurrent
  have hsince : sinceReset (.executed step :: v.journal) = .executed step :: sinceReset v.journal :=
    sinceReset_cons rfl _
  refine ⟨h.runs, ?_, h.base_le, h.current, ?_, ?_, ?_, ?_, ?_⟩
  · intro alarm halarm
    rcases Multiset.mem_add.mp halarm with halarm | halarm
    · obtain ⟨hrun, hscope, -⟩ := of_mem_alarmsOf halarm
      obtain ⟨active, hactive, hid⟩ := Option.map_eq_some_iff.mp hcurrent
      have hrun : alarm.clear.run = active.id := hrun.trans hid.symm
      have hfits := h.runs.active active hactive
      exact h.runs.fits_clear (hrun ▸ hfits.pos) (Nat.le_of_eq (hrun.trans hfits.last)) hscope
    · exact h.fits alarm halarm
  · intro alarm halarm
    rcases Multiset.mem_add.mp halarm with halarm | halarm
    · obtain ⟨hrun, hscope, -⟩ := of_mem_alarmsOf halarm
      exact iff_of_true hscope (hrun ▸ hbase)
    · exact h.session alarm halarm
  · intro slot run howner
    have howner : (v.store.applyStep _ _ _).owner slot = some run := howner
    rw [Store.owner_applyStep] at howner
    split at howner
    · exact Option.some.inj howner ▸ hbase
    · exact h.owner slot run howner
  · intro other hother
    rw [hsince] at hother
    rcases List.mem_cons.mp hother with heq | hother
    · cases heq
      exact hbase
    · exact h.steps other hother
  · intro hp alarm halarm
    rcases Multiset.mem_add.mp halarm with halarm | halarm
    · exact (of_mem_alarmsOf halarm).2.2
    · exact h.ahead hp alarm halarm
  · intro hp slot run hrun
    show askedFor (sinceReset (.executed step :: v.journal)) v.lag slot run =
      firedAt (sinceReset (.executed step :: v.journal)) slot run +
        dueAt (v.alarmsOf step.run step.action + v.alarms) slot run
    have hfired : (Note.executed step).fired? slot run = none := rfl
    rw [hsince, askedFor_cons, firedAt_cons, dueAt_add, dueAt_alarmsOf v step htime,
      h.account hp slot run hrun, hfired]
    exact add_left_comm _ _ _

/-- The clear of an alarm fires at the instant of the alarm. -/
theorem fires (h : v.Accounted punctual base) {alarm : Alarm} {others : Multiset Alarm}
    (halarms : v.alarms = alarm ::ₘ others) (hdue : alarm.due ≤ v.now) :
    Accounted punctual base { v with
      store := v.store.clear alarm.clear.slot alarm.clear.run
      journal := .cleared v.now alarm.clear.slot alarm.clear.run
        (v.store.owns alarm.clear.slot alarm.clear.run) :: v.journal
      alarms := others } := by
  have hsince (owned : Bool) :
      sinceReset (.cleared v.now alarm.clear.slot alarm.clear.run owned :: v.journal) =
        .cleared v.now alarm.clear.slot alarm.clear.run owned :: sinceReset v.journal :=
    sinceReset_cons rfl _
  have hothers {other : Alarm} (hother : other ∈ others) : other ∈ v.alarms := by
    rw [halarms]
    exact Multiset.mem_cons_of_mem hother
  have hself : alarm ∈ v.alarms := by
    rw [halarms]
    exact Multiset.mem_cons_self _ _
  refine ⟨h.runs, fun other hother => h.fits other (hothers hother), h.base_le, h.current,
    fun other hother => h.session other (hothers hother), ?_, ?_,
    fun hp other hother => h.ahead hp other (hothers hother), ?_⟩
  · intro slot run howner
    exact h.owner slot run (Store.owner_clear howner)
  · intro step hstep
    exact h.steps step (executed_of_cons rfl rfl hstep)
  · intro hp slot run hrun
    have htime : alarm.due = v.now := Nat.le_antisymm hdue (h.ahead hp alarm hself)
    have hfired : (Note.cleared v.now alarm.clear.slot alarm.clear.run
        (v.store.owns alarm.clear.slot alarm.clear.run)).fired? slot run =
          alarm.due? slot run := by
      unfold Note.fired? Alarm.due?
      rw [htime]
    have hasked : (Note.cleared v.now alarm.clear.slot alarm.clear.run
        (v.store.owns alarm.clear.slot alarm.clear.run)).asked? v.lag slot run = none := rfl
    have haccount := h.account hp slot run hrun
    rw [halarms, dueAt_cons] at haccount
    show askedFor (sinceReset (_ :: v.journal)) v.lag slot run =
      firedAt (sinceReset (_ :: v.journal)) slot run + dueAt others slot run
    rw [hsince, askedFor_cons, firedAt_cons, hasked, hfired, haccount]
    calc (0 : Multiset Nat) + (firedAt (sinceReset v.journal) slot run +
          ((alarm.due? slot run).toList + dueAt others slot run))
        = firedAt (sinceReset v.journal) slot run +
          ((alarm.due? slot run).toList + dueAt others slot run) := zero_add _
      _ = (alarm.due? slot run).toList +
          (firedAt (sinceReset v.journal) slot run + dueAt others slot run) := add_left_comm _ _ _
      _ = _ := (add_assoc _ _ _).symm

/-- A reset drops all alarms: each is of a run that was started before. -/
theorem resets (h : v.Accounted punctual base) :
    Accounted punctual v.runs.lastRun { v with
      store := v.store.reset
      journal := .reset v.now :: v.journal
      runs := v.runs.reset } := by
  have hsince : sinceReset (.reset v.now :: v.journal) = [] := rfl
  refine ⟨h.runs.reset, fun alarm halarm => Runs.fits_reset h.runs (h.fits alarm halarm),
    Nat.le_refl _, nofun, ?_, ?_, ?_, h.ahead, ?_⟩
  · intro alarm halarm
    have hfits := h.fits alarm halarm
    refine iff_of_false ?_ (Nat.not_lt.mpr hfits.run_le)
    intro hscope
    have hnumber : alarm.clear.scope.number = v.runs.scopes.opened := congrArg Scope.number hscope
    exact Nat.ne_of_lt hfits.number_lt hnumber
  · intro slot run howner
    have howner : v.store.reset.owner slot = some run := howner
    rw [Store.owner_reset] at howner
    cases howner
  · intro step hstep
    rw [hsince] at hstep
    cases hstep
  · intro _ slot run hrun
    show askedFor (sinceReset (.reset v.now :: v.journal)) v.lag slot run =
      firedAt (sinceReset (.reset v.now :: v.journal)) slot run + dueAt v.alarms slot run
    have hnone : dueAt v.alarms slot run = 0 := by
      refine dueAt_eq_zero ?_
      intro alarm halarm heq
      exact Nat.not_lt.mpr (h.fits alarm halarm).run_le (heq ▸ hrun)
    rw [hsince, hnone]
    rfl

/-- What happens to a ledger keeps its account. -/
theorem happens (h : v.Accounted punctual base) (hv : Happens punctual v v') :
    ∃ base', base ≤ base' ∧ v'.Accounted punctual base' := by
  cases hv with
  | executes step hcurrent htime => exact ⟨base, Nat.le_refl _, h.executes step hcurrent htime⟩
  | fires alarm others halarms hdue => exact ⟨base, Nat.le_refl _, h.fires halarms hdue⟩
  | ends alarm others halarms hcancelled =>
      have hothers {other : Alarm} (hother : other ∈ others) : other ∈ v.alarms := by
        rw [halarms]
        exact Multiset.mem_cons_of_mem hother
      have hself : alarm ∈ v.alarms := by
        rw [halarms]
        exact Multiset.mem_cons_self _ _
      refine ⟨base, Nat.le_refl _, h.runs, fun other hother => h.fits other (hothers hother),
        h.base_le, h.current, fun other hother => h.session other (hothers hother), h.owner,
        h.steps, fun hp other hother => h.ahead hp other (hothers hother), ?_⟩
      intro hp slot run hrun
      -- the alarm that is dropped is not one of this session, so not one of the run
      have hdue : alarm.due? slot run = none := by
        refine if_neg ?_
        rintro ⟨-, rfl⟩
        rw [(h.session alarm hself).mpr hrun, h.runs.session_isCancelled] at hcancelled
        cases hcancelled
      have haccount := h.account hp slot run hrun
      rw [halarms, dueAt_cons, hdue] at haccount
      rw [haccount]
      exact congrArg _ (zero_add _)
  | opens event =>
      have hsession : v.runs.start.2.session = v.runs.session := v.runs.cancelActive_session
      refine ⟨base, Nat.le_refl _, h.runs.start,
        fun alarm halarm => Runs.fits_start (h.fits alarm halarm), ?_, ?_, ?_, ?_, ?_, h.ahead, ?_⟩
      · show base ≤ v.runs.start.2.lastRun
        rw [Runs.lastRun_start]
        exact Nat.le_succ_of_le h.base_le
      · intro run hrun
        obtain ⟨active, hactive, rfl⟩ := Option.map_eq_some_iff.mp hrun
        rw [(h.runs.start.active active hactive).last]
        show base < v.runs.start.2.lastRun
        rw [Runs.lastRun_start]
        exact Nat.lt_succ_of_le h.base_le
      · intro alarm halarm
        show alarm.clear.scope = v.runs.start.2.session ↔ _
        rw [hsession]
        exact h.session alarm halarm
      · intro slot run howner
        have howner : (v.store.push v.store.snapshot).owner slot = some run := howner
        rw [Store.owner_push] at howner
        exact h.owner slot run howner
      · intro step hstep
        exact h.steps step (executed_of_cons rfl rfl hstep)
      · intro hp slot run hrun
        obtain ⟨hasked, hfired⟩ := accounts_cons
          (.started v.now v.runs.start.1.id event v.store.snapshot) v.journal v.lag slot run rfl rfl rfl
        rw [hasked, hfired]
        exact h.account hp slot run hrun
  | cancels =>
      have hsession : v.runs.cancelActive.session = v.runs.session := v.runs.cancelActive_session
      refine ⟨base, Nat.le_refl _, h.runs.cancelActive,
        fun alarm halarm => Runs.fits_cancelActive (h.fits alarm halarm), ?_, ?_, ?_, h.owner,
        h.steps, h.ahead, h.account⟩
      · show base ≤ v.runs.cancelActive.lastRun
        rw [Runs.cancelActive_lastRun]
        exact h.base_le
      · intro run hrun
        rw [Runs.current_cancelActive] at hrun
        cases hrun
      · intro alarm halarm
        show alarm.clear.scope = v.runs.cancelActive.session ↔ _
        rw [hsession]
        exact h.session alarm halarm
  | undoes entry older hhistory =>
      refine ⟨base, Nat.le_refl _, h.runs, h.fits, h.base_le, h.current, h.session, ?_, ?_, h.ahead,
        ?_⟩
      · intro slot run howner
        have howner : ({ v.store with history := older }.restore entry).owner slot = some run :=
          howner
        rw [Store.owner_restore] at howner
        cases howner
      · intro step hstep
        exact h.steps step (executed_of_cons rfl rfl hstep)
      · intro hp slot run hrun
        obtain ⟨hasked, hfired⟩ := accounts_cons (.undone v.now) v.journal v.lag slot run rfl rfl rfl
        rw [hasked, hfired]
        exact h.account hp slot run hrun
  | resets => exact ⟨v.runs.lastRun, h.base_le, h.resets⟩
  | passes ms alarms hsame honTime =>
      have hclear {alarm : Alarm} (halarm : alarm ∈ alarms) :
          ∃ before ∈ v.alarms, before.clear = alarm.clear := by
        refine Multiset.mem_map.mp ?_
        rw [← hsame]
        exact Multiset.mem_map_of_mem _ halarm
      refine ⟨base, Nat.le_refl _, h.runs, ?_, h.base_le, h.current, ?_, h.owner, h.steps, ?_, ?_⟩
      · intro alarm halarm
        obtain ⟨before, hbefore, heq⟩ := hclear halarm
        exact heq ▸ h.fits before hbefore
      · intro alarm halarm
        obtain ⟨before, hbefore, heq⟩ := hclear halarm
        exact heq ▸ h.session before hbefore
      · intro hp alarm halarm
        obtain ⟨rfl, hahead⟩ := honTime hp
        exact hahead alarm halarm
      · intro hp slot run hrun
        obtain ⟨rfl, -⟩ := honTime hp
        exact h.account hp slot run hrun

theorem goes (h : v.Accounted punctual base) (hv : Goes punctual v v') :
    ∃ base', base ≤ base' ∧ v'.Accounted punctual base' := by
  induction hv with
  | refl => exact ⟨base, Nat.le_refl _, h⟩
  | tail _ hstep ih =>
      obtain ⟨base', hle, h'⟩ := ih
      obtain ⟨base'', hle', h''⟩ := h'.happens hstep
      exact ⟨base'', Nat.le_trans hle hle', h''⟩

theorem weaken {lax : Prop} (h : v.Accounted punctual base) (hp : lax → punctual) :
    v.Accounted lax base :=
  { h with
    ahead := fun hl => h.ahead (hp hl)
    account := fun hl => h.account (hp hl) }

/-- The alarms of a run since the reset are not cancelled. -/
theorem isCancelled_eq_false (h : v.Accounted punctual base) {alarm : Alarm}
    (halarm : alarm ∈ v.alarms) (hrun : base < alarm.clear.run) :
    v.runs.scopes.isCancelled alarm.clear.scope = false := by
  rw [(h.session alarm halarm).mpr hrun]
  exact h.runs.session_isCancelled

end Accounted

/-- The owner of a slot is the run of the step that touched it last. -/
theorem Held.owner_eq (h : v.Held punctual) (slot : Slot) :
    v.store.owner slot = lastWriter v.journal slot := by
  have hslot := h.slots slot
  unfold lastWriter
  cases htouch : lastTouch v.journal slot with
  | none =>
      rw [htouch] at hslot
      exact hslot.1
  | some touch =>
      rw [htouch] at hslot
      cases touch <;> exact hslot.1

end Ledger

/-- Whether a note says that something else than a run and its clears touched a slot. -/
def Note.disturbs (slot : Slot) (run : Stamp) (n : Note) : Bool :=
  match n.touch? slot with
  | some (.written step) => decide (step.run ≠ run)
  | some .restored => true
  | some .reset => true
  | _ => false

theorem Note.isReset_of_disturbs {slot : Slot} {run : Stamp} {n : Note}
    (h : n.disturbs slot run = false) : n.isReset = false := by
  cases n with
  | reset time => cases h
  | _ => rfl

theorem executed_sinceReset {step : Step} {later : List Note}
    (h : ∀ n ∈ later, n.isReset = false) (earlier : List Note) :
    .executed step ∈ sinceReset (later ++ .executed step :: earlier) := by
  induction later with
  | nil => exact List.mem_cons_self
  | cons n later ih =>
      rw [List.cons_append, sinceReset_cons (h n List.mem_cons_self)]
      exact List.mem_cons_of_mem n (ih fun m hm => h m (List.mem_cons_of_mem n hm))

/-- As long as only a run and its clears touch a slot after a step of the run, the last touch is one
of theirs. -/
theorem lastTouch_undisturbed {slot : Slot} {step : Step}
    (hstep : (step.action.effect.on slot).isWritten = true) {later : List Note}
    (hlater : ∀ n ∈ later, n.disturbs slot step.run = false) (earlier : List Note) :
    lastTouch (later ++ .executed step :: earlier) slot = some .cleared ∨
      ∃ last, lastTouch (later ++ .executed step :: earlier) slot = some (.written last) ∧
        last.run = step.run := by
  induction later with
  | nil =>
      have htouch : Note.touch? slot (.executed step) = some (.written step) := if_pos hstep
      exact .inr ⟨step, lastTouch_of_some htouch, rfl⟩
  | cons n later ih =>
      have hn := hlater n List.mem_cons_self
      unfold Note.disturbs at hn
      rw [List.cons_append]
      cases htouch : n.touch? slot with
      | none =>
          rw [lastTouch_of_none htouch]
          exact ih fun m hm => hlater m (List.mem_cons_of_mem n hm)
      | some touch =>
          rw [lastTouch_of_some htouch]
          rw [htouch] at hn
          cases touch with
          | written last => exact .inr ⟨last, rfl, by simpa using hn⟩
          | cleared => exact .inl rfl
          | restored => cases hn
          | reset => cases hn

namespace Sequencer

/-- What the turn does in which a clear fires. -/
structure Fires (s s' : Sequencer) (c : Clear) : Prop where
  noted : s'.journal =
    .cleared s.now c.slot c.run (lastWriter s.journal c.slot = some c.run) :: s.journal
  resets : lastWriter s.journal c.slot = some c.run →
    s'.store.motion = s.store.motion.resetIn c.slot
  /-- Nothing is changed, and no observer is notified. -/
  keeps : lastWriter s.journal c.slot ≠ some c.run → s'.store = s.store

/-- What is known of the clears in a state of a schedule, which may be `punctual`. -/
structure ClearsOnSchedule (punctual : Prop) (s : Sequencer) : Prop where
  /-- For each step since the last reset that writes a slot for a time there is one clear. It fired
  when the time was over, or is going to fire then. -/
  once : punctual → ∀ step, .executed step ∈ sinceReset s.journal → ∀ slot,
    askedFor (sinceReset s.journal) s.lag slot step.run =
      firedAt (sinceReset s.journal) slot step.run + dueAt s.pending slot step.run
  ahead : punctual → ∀ alarm ∈ s.alarms, s.now ≤ alarm.due
  /-- When no task is left to have its turn, all clears that were due did fire. -/
  settled : s.ready = [] → s.yielded = [] → ∀ alarm ∈ s.alarms, s.now < alarm.due
  /-- A clear that is due fires when it has its turn. -/
  fires : ∀ place dueFirst c due, s.ready[place]? = some ⟨.clear c, due⟩ →
    s.isCancelled (.clear c) = false → due.getD (s.now + s.sleepTime c.time) ≤ s.now →
    s.Fires (s.turnAt place dueFirst) c
  /-- Then the slot is reset, also when later steps of the run wrote it again, unless another run, an
  undo or a reset touched it. -/
  own : ∀ slot step later earlier, s.journal = later ++ .executed step :: earlier →
    (step.action.effect.on slot).isWritten = true →
    (∀ n ∈ later, n.disturbs slot step.run = false) → ∀ place dueFirst c due,
    s.ready[place]? = some ⟨.clear c, due⟩ → c.slot = slot → c.run = step.run →
    due.getD (s.now + s.sleepTime c.time) ≤ s.now →
    (s.turnAt place dueFirst).store.motion.IsDefault slot
  /-- After a reset the clears of the runs before it have no effect, whenever they have their turns. -/
  reset : ∀ ns place dueFirst c due, (s.reset.moves ns).ready[place]? = some ⟨.clear c, due⟩ →
    c.run ≤ s.runs.lastRun →
    ((s.reset.moves ns).turnAt place dueFirst).store = (s.reset.moves ns).store

variable {s : Sequencer} {punctual : Prop} {base : Stamp}

theorem accounted_rebuilt (s : Sequencer) (punctual : Prop) :
    s.rebuilt.ledger.Accounted punctual 0 := by
  have halarms (alarm : Alarm) : alarm ∉ s.rebuilt.ledger.alarms := Multiset.notMem_zero alarm
  have hcurrent (run : Stamp) : s.rebuilt.ledger.runs.current ≠ some run := nofun
  refine ⟨Runs.wellFormed_init, ?_, Nat.zero_le _, ?_, ?_, ?_, ?_, ?_, ?_⟩
  · intro alarm halarm
    exact absurd halarm (halarms alarm)
  · intro run hrun
    exact absurd hrun (hcurrent run)
  · intro alarm halarm
    exact absurd halarm (halarms alarm)
  · intro slot run howner
    cases slot <;> cases howner
  · intro step hstep
    cases hstep
  · intro _ alarm halarm
    exact absurd halarm (halarms alarm)
  · intro _ slot run _
    rw [dueAt_eq_zero fun alarm halarm => absurd halarm (halarms alarm)]
    rfl

theorem alarm_of_ready {place : Nat} {c : Clear} {due : Option Nat}
    (h : s.ready[place]? = some ⟨.clear c, due⟩) :
    (⟨c, due.getD (s.now + s.sleepTime c.time)⟩ : Alarm) ∈ s.alarms := by
  refine mem_alarms.mpr ⟨⟨.clear c, due⟩, ?_, rfl, rfl⟩
  exact (tasks_without_perm h).mem_iff.mpr List.mem_cons_self

theorem turnAt_clear {place : Nat} {c : Clear} {due : Option Nat}
    (h : s.ready[place]? = some ⟨.clear c, due⟩) (dueFirst : Bool) :
    s.turnAt place dueFirst = (s.without place).clearTurn dueFirst c due :=
  turnAt_of_some h

theorem fires_turnAt (hheld : s.ledger.Held punctual) {place : Nat} {c : Clear} {due : Option Nat}
    (hready : s.ready[place]? = some ⟨.clear c, due⟩) (hlive : s.isCancelled (.clear c) = false)
    (hdue : due.getD (s.now + s.sleepTime c.time) ≤ s.now) (dueFirst : Bool) :
    s.Fires (s.turnAt place dueFirst) c := by
  have howner : s.store.owner c.slot = lastWriter s.journal c.slot := hheld.owner_eq c.slot
  have hturn : s.turnAt place dueFirst = (s.without place).fire c := by
    rw [turnAt_clear hready]
    rcases clearTurn_cases dueFirst (s.without place) c due with
      ⟨-, hcancelled⟩ | ⟨heq, -⟩ | ⟨-, hlater, -⟩
    · rw [show (s.without place).isCancelled (.clear c) = s.isCancelled (.clear c) from rfl,
        hlive] at hcancelled
      cases hcancelled
    · exact heq
    · exact absurd hdue (Nat.not_le.mpr hlater)
  have howns : s.store.owns c.slot c.run = decide (lastWriter s.journal c.slot = some c.run) := by
    rw [← howner, Bool.eq_iff_iff, decide_eq_true_iff]
    exact Store.owns_iff
  rw [hturn]
  refine ⟨?_, ?_, ?_⟩
  · rw [← howns]
    rfl
  · intro hlast
    rw [hlast, decide_eq_true rfl] at howns
    exact (Store.clear_of_owns howns).2
  · intro hlast
    rw [decide_eq_false hlast] at howns
    exact Store.clear_of_not_owns howns

/-- A run of a session that ended owns nothing, so that its clears have no effect. -/
theorem turnAt_store_of_le (haccount : s.ledger.Accounted punctual base) {place : Nat} {c : Clear}
    {due : Option Nat} (hready : s.ready[place]? = some ⟨.clear c, due⟩) (hle : c.run ≤ base)
    (dueFirst : Bool) : (s.turnAt place dueFirst).store = s.store := by
  have howns : s.store.owns c.slot c.run = false := by
    rw [← Bool.not_eq_true, Store.owns_iff]
    intro howner
    exact Nat.not_lt.mpr hle (haccount.owner c.slot c.run howner)
  rw [turnAt_clear hready]
  exact clearTurn_store (s := s.without place) howns dueFirst due

/-- In every state of a schedule a clear has just the effect that it is to have, and on a schedule that
is on time all clears fire when they are to fire. -/
theorem clears_on_schedule (s₀ : Sequencer) (ms : List Move) :
    (s₀.rebuilt.moves ms).ClearsOnSchedule (s₀.rebuilt.OnTime ms) := by
  have hs : (s₀.rebuilt.moves ms).WellFormed := (wellFormed_rebuilt s₀).moves ms
  have hheld := held_moves s₀ ms
  obtain ⟨base, -, haccount⟩ := (accounted_rebuilt s₀ (s₀.rebuilt.OnTime ms)).goes
    (goes_moves (wellFormed_rebuilt s₀) id)
  generalize s₀.rebuilt.moves ms = s at hs hheld haccount
  have hlive {alarm : Alarm} (halarm : alarm ∈ s.alarms) (hrun : base < alarm.clear.run) :
      s.isCancelled (.clear alarm.clear) = false := haccount.isCancelled_eq_false halarm hrun
  refine ⟨?_, haccount.ahead, ?_, ?_, ?_, ?_⟩
  · intro hpunctual step hstep slot
    have hrun : base < step.run := haccount.steps step hstep
    have hpending : dueAt s.pending slot step.run = dueAt s.alarms slot step.run := by
      refine dueAt_filter _ ?_
      intro alarm halarm heq
      exact hlive halarm (heq ▸ hrun)
    rw [hpending]
    exact haccount.account hpunctual slot step.run hrun
  · intro hready hyielded alarm halarm
    obtain ⟨t, ht, -, hdue⟩ := mem_alarms.mp halarm
    unfold tasks at ht
    rw [hready, hyielded, List.nil_append, List.nil_append] at ht
    obtain ⟨u, hu, rfl⟩ := List.mem_map.mp ht
    rw [hdue]
    exact hs.due u hu
  · intro place dueFirst c due hready hcancelled hdue
    exact fires_turnAt hheld hready hcancelled hdue dueFirst
  · intro slot step later earlier hjournal hwritten hlater place dueFirst c due hready hslot hrun hdue
    have hstep : .executed step ∈ sinceReset s.journal := by
      rw [hjournal]
      exact executed_sinceReset (fun n hn => Note.isReset_of_disturbs (hlater n hn)) earlier
    have hcancelled : s.isCancelled (.clear c) = false := by
      refine hlive (alarm_of_ready hready) ?_
      rw [hrun]
      exact haccount.steps step hstep
    have hfires := fires_turnAt hheld hready hcancelled hdue dueFirst
    subst hslot
    rcases lastTouch_undisturbed hwritten hlater earlier with htouch | ⟨last, htouch, hlast⟩ <;>
      rw [← hjournal] at htouch
    · -- another clear of the run was earlier
      have hnone : lastWriter s.journal c.slot ≠ some c.run := by
        unfold lastWriter
        rw [htouch]
        exact nofun
      have hslot := hheld.slots c.slot
      rw [show s.ledger.journal = s.journal from rfl, htouch] at hslot
      rw [hfires.keeps hnone]
      exact hslot.2
    · -- a step of the run was the last to write the slot
      have hsome : lastWriter s.journal c.slot = some c.run := by
        unfold lastWriter
        rw [htouch, hrun, ← hlast]
      rw [hfires.resets hsome]
      exact Motion.isDefault_resetIn _ _
  · intro ns place dueFirst c due hready hle
    have hreset : s.reset.ledger.Accounted False s.runs.lastRun := by
      rw [ledger_reset]
      exact (haccount.weaken False.elim).resets
    have hgoes : Ledger.Goes False s.reset.ledger (s.reset.moves ns).ledger :=
      goes_moves hs.reset False.elim
    obtain ⟨base', hbase, haccount'⟩ := hreset.goes hgoes
    exact turnAt_store_of_le haccount' hready (Nat.le_trans hle hbase) dueFirst

/-- "first" is said for a second, and shortly after it "second" by another run, when the clear of the
first run is due. -/
def overtaken : List Move :=
  [.call (.replaceProgram
      ⟨[⟨.hat .flagClicked, [.sayForSeconds "first" 1.0]⟩,
        ⟨.hat .spriteClicked, [.thinkForSeconds "second" 2.0]⟩]⟩),
    .call .run, .turn 0 false, .pass 5, .turn 0 false, .turn 0 false,
    .call (.start .spriteClicked), .turn 0 false, .pass 5, .turn 0 false, .turn 0 false, .pass 995]

theorem clears_on_schedule_overtaken :
    (threeActions 5).rebuilt.OnTime overtaken ∧
      ((threeActions 5).rebuilt.moves overtaken).ready.map Ready.due = [some 1005] ∧
      lastWriter ((threeActions 5).rebuilt.moves overtaken).journal .text = some 2 ∧
      ((threeActions 5).rebuilt.moves overtaken).ClearsOnSchedule
        ((threeActions 5).rebuilt.OnTime overtaken) :=
  ⟨by decide +kernel, by decide +kernel, by decide +kernel,
    clears_on_schedule (threeActions 5) overtaken⟩

def longSpeech : List Move :=
  [.call (.replaceProgram ⟨[⟨.hat .flagClicked, [.sayForSeconds "hello" 946080001.0]⟩]⟩),
    .call .run, .turn 0 false, .pass 5, .turn 0 false, .turn 0 false, .pass 946080000000,
    .turn 0 false]

/-- A clear that is asked for after more than thirty years fires too early. -/
theorem clears_capped : ¬ ∀ (s : Sequencer) (ms : List Move), s.rebuilt.OnTime ms →
    ∀ n ∈ (s.rebuilt.moves ms).journal, ∀ slot run time, n.fired? slot run = some time →
      ∃ step ∈ (s.rebuilt.moves ms).steps, step.run = run ∧
        (step.action.effect.on slot).time?.map (fun d => step.time + (d.ceilMillis + s.lag)) =
          some time := by
  intro h
  have hfired : ((threeActions 5).rebuilt.moves longSpeech).journal.head?.bind
      (Note.fired? .text 1) = some 946080000005 := by decide +kernel
  obtain ⟨n, hn, htime⟩ := Option.bind_eq_some_iff.mp hfired
  have hstep := h (threeActions 5) longSpeech (by decide +kernel) n (List.mem_of_mem_head? hn)
    .text 1 946080000005 htime
  revert hstep
  decide +kernel

end Sequencer

end SpriteStage
