import SpriteStage.Proofs.Sequencer.Ledger

/-!
# What touched a slot last

A slot is touched by a step that writes it, by the clear of the run that owns it, by an undo that
brings a snapshot back, and by a reset. The last touch says what the slot holds: after a step the run
of the step owns the slot, and if what the step wrote has a time, its alarm is still to come; after
anything else nobody owns the slot. `Held` is the invariant, and `Held.happens` its step lemma.
-/

namespace SpriteStage

inductive Touch where
  | written (step : Step)
  /-- The clear of the run that owned the slot. -/
  | cleared
  | restored
  | reset

namespace Note

def touch? (slot : Slot) : Note → Option Touch
  | .executed step => if (step.action.effect.on slot).isWritten then some (.written step) else none
  | .cleared _ other _ owned => if other = slot ∧ owned = true then some .cleared else none
  | .undone _ => some .restored
  | .reset _ => some .reset
  | .started .. => none

/-- The snapshot that was taken when a run was started. -/
def snapshot? : Note → Option Snapshot
  | .started _ _ _ before => some before
  | _ => none

end Note

/-- The last touch of a slot. A journal has the last note first. -/
def lastTouch (journal : List Note) (slot : Slot) : Option Touch :=
  journal.findSome? (Note.touch? slot)

theorem lastTouch_of_some {journal : List Note} {slot : Slot} {n : Note} {touch : Touch}
    (h : n.touch? slot = some touch) : lastTouch (n :: journal) slot = some touch :=
  List.findSome?_cons_of_isSome (by rw [h]; rfl) |>.trans h

theorem lastTouch_of_none {journal : List Note} {slot : Slot} {n : Note}
    (h : n.touch? slot = none) : lastTouch (n :: journal) slot = lastTouch journal slot :=
  List.findSome?_cons_of_isNone (by rw [h]; rfl)

/-- A step that touched a slot last was executed. -/
theorem executed_of_lastTouch {journal : List Note} {slot : Slot} {step : Step}
    (h : lastTouch journal slot = some (.written step)) : .executed step ∈ journal := by
  obtain ⟨n, hn, htouch⟩ := List.exists_of_findSome?_eq_some h
  cases n with
  | executed other =>
      obtain ⟨-, hsome⟩ := Option.ite_none_right_eq_some.mp htouch
      cases hsome
      exact hn
  | cleared _ other _ owned =>
      obtain ⟨-, hsome⟩ := Option.ite_none_right_eq_some.mp htouch
      cases hsome
  | started => cases htouch
  | undone => cases htouch
  | reset => cases htouch

theorem SlotWrite.eq_untouched {w : SlotWrite} (h : ¬ w.isWritten = true) : w = .untouched := by
  cases w with
  | untouched => rfl
  | lasting => exact absurd rfl h
  | timed time => exact absurd rfl h

namespace Ledger

variable {punctual : Prop} {v v' : Ledger} {slot : Slot}

/-- What an undo leaves in a slot: no animation, and the bubble of a snapshot. -/
def IsRestored (v : Ledger) : Slot → Prop
  | .text => ∃ n ∈ v.journal, ∃ before, n.snapshot? = some before ∧ v.store.motion.text = before.text
  | .animation => v.store.motion.animation = none

def IsWritten (punctual : Prop) (v : Ledger) (slot : Slot) (step : Step) : Prop :=
  match step.action.effect.on slot with
  | .untouched => False
  | .lasting => slot = .animation → v.store.motion.IsDefault slot
  | .timed time => ∃ alarm ∈ v.alarms, alarm.clear = ⟨slot, step.run, v.runs.session, time⟩ ∧
      (punctual → alarm.due = step.time + (time.timerMillis + v.lag))

def Holds (punctual : Prop) (v : Ledger) (slot : Slot) : Option Touch → Prop
  | some (.written step) => v.store.owner slot = some step.run ∧ v.IsWritten punctual slot step
  | some .restored => v.store.owner slot = none ∧ v.IsRestored slot
  | _ => v.store.owner slot = none ∧ v.store.motion.IsDefault slot

structure Held (punctual : Prop) (v : Ledger) : Prop where
  runs : v.runs.WellFormed
  /-- What can be brought back are snapshots that were taken when runs were started. -/
  history : ∀ entry ∈ v.store.history, ∃ n ∈ v.journal, n.snapshot? = some entry
  slots : ∀ slot, v.Holds punctual slot (lastTouch v.journal slot)

/-- A slot holds what it held as long as nothing touches it and its alarm is still to come. -/
theorem Holds.mono {touch : Option Touch} (h : v.Holds punctual slot touch)
    (howner : v'.store.owner slot = v.store.owner slot)
    (hmotion : v.store.motion.SameIn v'.store.motion slot) (hjournal : v.journal ⊆ v'.journal)
    (hsession : v'.runs.session = v.runs.session) (hlag : v'.lag = v.lag)
    (halarms : ∀ alarm ∈ v.alarms, alarm.clear.slot = slot →
      v.store.owner slot = some alarm.clear.run → alarm.clear.scope = v.runs.session →
      ∃ alarm' ∈ v'.alarms, alarm'.clear = alarm.clear ∧ (punctual → alarm'.due = alarm.due)) :
    v'.Holds punctual slot touch := by
  unfold Holds at h ⊢
  rw [howner]
  split at h
  · rename_i step
    obtain ⟨hrun, hwritten⟩ := h
    refine ⟨hrun, ?_⟩
    unfold IsWritten at hwritten ⊢
    split at hwritten
    · exact hwritten
    · intro hslot
      exact (hwritten hslot).of_sameIn hmotion
    · obtain ⟨alarm, halarm, hclear, hdue⟩ := hwritten
      obtain ⟨alarm', halarm', hclear', hdue'⟩ := halarms alarm halarm (by rw [hclear])
        (by rw [hclear]; exact hrun) (by rw [hclear])
      refine ⟨alarm', halarm', ?_, ?_⟩
      · rw [hclear', hclear, hsession]
      · intro hp
        rw [hdue' hp, hdue hp, hlag]
  · refine ⟨h.1, ?_⟩
    have hrestored := h.2
    cases slot with
    | text =>
        obtain ⟨n, hn, before, hbefore, htext⟩ := hrestored
        have hmotion : v'.store.motion.text = v.store.motion.text := hmotion
        exact ⟨n, hjournal hn, before, hbefore, hmotion.trans htext⟩
    | animation =>
        have hmotion : v'.store.motion.animation = v.store.motion.animation := hmotion
        exact hmotion.trans hrestored
  · exact ⟨h.1, h.2.of_sameIn hmotion⟩

/-- A step sets an alarm for what it writes for a time. -/
theorem mem_alarmsOf {a : Action} {time : Duration} (h : a.effect.on slot = .timed time)
    (v : Ledger) (run : Stamp) :
    (⟨⟨slot, run, v.runs.session, time⟩, v.now + (time.timerMillis + v.lag)⟩ : Alarm) ∈
      v.alarmsOf run a := by
  have hmem : (⟨slot, run, v.runs.session, time⟩ : Clear) ∈ a.effect.clears run v.runs.session := by
    unfold Effect.clears
    rw [List.mem_append]
    cases slot with
    | text =>
        have h : a.effect.text = .timed time := h
        simp [h, SlotWrite.time?]
    | animation =>
        have h : a.effect.animation = .timed time := h
        simp [h, SlotWrite.time?]
  exact Multiset.mem_coe.mpr (List.mem_map_of_mem hmem)

namespace Held

theorem executes (h : v.Held punctual) (step : Step) (htime : step.time = v.now) (slot : Slot) :
    Holds punctual { v with
      store := v.store.applyStep step.run
        (step.action.apply v.store.motion step.scene).motion step.action.effect
      journal := .executed step :: v.journal
      alarms := v.alarmsOf step.run step.action + v.alarms } slot
      (lastTouch (.executed step :: v.journal) slot) := by
  by_cases hwritten : (step.action.effect.on slot).isWritten = true
  · have htouch : Note.touch? slot (.executed step) = some (.written step) := if_pos hwritten
    rw [lastTouch_of_some htouch]
    refine ⟨?_, ?_⟩
    · show (v.store.applyStep _ _ _).owner slot = some step.run
      rw [Store.owner_applyStep, if_pos hwritten]
    · unfold IsWritten
      split
      · rename_i huntouched
        rw [huntouched] at hwritten
        cases hwritten
      · rename_i hlasting
        rintro rfl
        exact Action.apply_of_lasting hlasting _ _
      · rename_i time htimed
        refine ⟨_, Multiset.mem_add.mpr (.inl (mem_alarmsOf htimed v step.run)), rfl, ?_⟩
        intro _
        rw [htime]
  · have htouch : Note.touch? slot (.executed step) = none := if_neg hwritten
    rw [lastTouch_of_none htouch]
    refine (h.slots slot).mono ?_ ?_ (List.subset_cons_self _ _) rfl rfl ?_
    · show (v.store.applyStep _ _ _).owner slot = _
      rw [Store.owner_applyStep, if_neg hwritten]
    · exact Action.apply_of_untouched (SlotWrite.eq_untouched hwritten) _ _
    · intro alarm halarm _ _ _
      exact ⟨alarm, Multiset.mem_add.mpr (.inr halarm), rfl, fun _ => rfl⟩

/-- The alarm of the run that owns a slot resets it. Any other alarm leaves the slot and the alarms of
its owner as they are. -/
theorem fires (h : v.Held punctual) {alarm : Alarm} {others : Multiset Alarm}
    (halarms : v.alarms = alarm ::ₘ others) (slot : Slot) :
    Holds punctual { v with
      store := v.store.clear alarm.clear.slot alarm.clear.run
      journal := .cleared v.now alarm.clear.slot alarm.clear.run
        (v.store.owns alarm.clear.slot alarm.clear.run) :: v.journal
      alarms := others } slot
      (lastTouch (.cleared v.now alarm.clear.slot alarm.clear.run
        (v.store.owns alarm.clear.slot alarm.clear.run) :: v.journal) slot) := by
  by_cases hits : alarm.clear.slot = slot ∧ v.store.owns alarm.clear.slot alarm.clear.run = true
  · have htouch : Note.touch? slot (.cleared v.now alarm.clear.slot alarm.clear.run
        (v.store.owns alarm.clear.slot alarm.clear.run)) = some .cleared := if_pos hits
    rw [lastTouch_of_some htouch]
    obtain ⟨rfl, howns⟩ := hits
    obtain ⟨howner, hmotion⟩ := Store.clear_of_owns howns
    refine ⟨howner, ?_⟩
    show (v.store.clear _ _).motion.IsDefault _
    rw [hmotion]
    exact Motion.isDefault_resetIn _ _
  · have htouch : Note.touch? slot (.cleared v.now alarm.clear.slot alarm.clear.run
        (v.store.owns alarm.clear.slot alarm.clear.run)) = none := if_neg hits
    rw [lastTouch_of_none htouch]
    have hleft : (v.store.clear alarm.clear.slot alarm.clear.run).owner slot = v.store.owner slot ∧
        v.store.motion.SameIn (v.store.clear alarm.clear.slot alarm.clear.run).motion slot := by
      by_cases hslot : alarm.clear.slot = slot
      · rw [not_and, Bool.not_eq_true] at hits
        rw [Store.clear_of_not_owns (hits hslot)]
        cases slot <;> exact ⟨rfl, rfl⟩
      · exact Store.clear_of_ne hslot _ _
    refine (h.slots slot).mono hleft.1 hleft.2 (List.subset_cons_self _ _) rfl rfl ?_
    intro other hother hslot howner _
    rw [halarms] at hother
    rcases Multiset.mem_cons.mp hother with rfl | hother
    · -- the alarm of the owner would have reset the slot
      refine absurd ⟨hslot, ?_⟩ hits
      rw [hslot]
      exact Store.owns_iff.mpr howner
    · exact ⟨other, hother, rfl, fun _ => rfl⟩

/-- Nothing that can happen to a ledger breaks what the last touches say. -/
theorem happens (h : v.Held punctual) (hv : Happens punctual v v') : v'.Held punctual := by
  cases hv with
  | executes step hcurrent htime =>
      refine ⟨h.runs, ?_, h.executes step htime⟩
      intro entry hentry
      obtain ⟨n, hn, hsnapshot⟩ := h.history entry hentry
      exact ⟨n, List.mem_cons_of_mem _ hn, hsnapshot⟩
  | fires alarm others halarms hdue =>
      refine ⟨h.runs, ?_, h.fires halarms⟩
      intro entry hentry
      have hentry : entry ∈ v.store.history := by rwa [← Store.history_clear]
      obtain ⟨n, hn, hsnapshot⟩ := h.history entry hentry
      exact ⟨n, List.mem_cons_of_mem _ hn, hsnapshot⟩
  | ends alarm others halarms hcancelled =>
      refine ⟨h.runs, h.history, ?_⟩
      intro slot
      refine (h.slots slot).mono rfl ?_ (List.Subset.refl _) rfl rfl ?_
      · cases slot <;> rfl
      · intro other hother _ _ hscope
        rw [halarms] at hother
        rcases Multiset.mem_cons.mp hother with rfl | hother
        · -- what the slot holds is of this session, and so is its alarm
          rw [hscope, h.runs.session_isCancelled] at hcancelled
          cases hcancelled
        · exact ⟨other, hother, rfl, fun _ => rfl⟩
  | opens event =>
      refine ⟨h.runs.start, ?_, ?_⟩
      · intro entry hentry
        rcases List.mem_cons.mp hentry with rfl | hentry
        · exact ⟨_, List.mem_cons_self, rfl⟩
        · obtain ⟨n, hn, hsnapshot⟩ := h.history entry hentry
          exact ⟨n, List.mem_cons_of_mem _ hn, hsnapshot⟩
      · intro slot
        rw [lastTouch_of_none rfl]
        refine (h.slots slot).mono (Store.owner_push _ _ _) ?_ (List.subset_cons_self _ _) ?_ rfl ?_
        · cases slot <;> rfl
        · exact v.runs.cancelActive_session
        · intro alarm halarm _ _ _
          exact ⟨alarm, halarm, rfl, fun _ => rfl⟩
  | cancels =>
      refine ⟨h.runs.cancelActive, h.history, ?_⟩
      intro slot
      refine (h.slots slot).mono rfl ?_ (List.Subset.refl _) v.runs.cancelActive_session rfl ?_
      · cases slot <;> rfl
      · intro alarm halarm _ _ _
        exact ⟨alarm, halarm, rfl, fun _ => rfl⟩
  | undoes entry older hhistory =>
      have hentries {e : Snapshot} (he : e ∈ entry :: older) :
          ∃ n ∈ Note.undone v.now :: v.journal, n.snapshot? = some e := by
        rw [← hhistory] at he
        obtain ⟨n, hn, hsnapshot⟩ := h.history e he
        exact ⟨n, List.mem_cons_of_mem _ hn, hsnapshot⟩
      refine ⟨h.runs, fun e he => hentries (List.mem_cons_of_mem _ he), ?_⟩
      intro slot
      rw [lastTouch_of_some rfl]
      refine ⟨Store.owner_restore _ _ _, ?_⟩
      cases slot with
      | text =>
          obtain ⟨n, hn, hsnapshot⟩ := hentries List.mem_cons_self
          exact ⟨n, hn, entry, hsnapshot, rfl⟩
      | animation => rfl
  | resets =>
      refine ⟨h.runs.reset, nofun, ?_⟩
      intro slot
      rw [lastTouch_of_some rfl]
      exact ⟨Store.owner_reset _ _, Motion.isDefault_initial slot⟩
  | passes ms alarms hsame honTime =>
      refine ⟨h.runs, h.history, ?_⟩
      intro slot
      refine (h.slots slot).mono rfl ?_ (List.Subset.refl _) rfl rfl ?_
      · cases slot <;> rfl
      · intro alarm halarm _ _ _
        by_cases hp : punctual
        · obtain ⟨rfl, -⟩ := honTime hp
          exact ⟨alarm, halarm, rfl, fun _ => rfl⟩
        · -- the alarm is still there, only its instant may have moved
          have hclear : alarm.clear ∈ alarms.map Alarm.clear := by
            rw [hsame]
            exact Multiset.mem_map_of_mem _ halarm
          obtain ⟨alarm', halarm', heq⟩ := Multiset.mem_map.mp hclear
          exact ⟨alarm', halarm', heq, fun h => absurd h hp⟩

theorem goes (h : v.Held punctual) (hv : Goes punctual v v') : v'.Held punctual := by
  induction hv with
  | refl => exact h
  | tail _ hstep ih => exact ih.happens hstep

end Held

end Ledger

namespace Sequencer

theorem held_rebuilt (s : Sequencer) (punctual : Prop) : s.rebuilt.ledger.Held punctual where
  runs := Runs.wellFormed_init
  history := nofun
  slots := by
    intro slot
    refine ⟨?_, Motion.isDefault_initial slot⟩
    cases slot <;> rfl

/-- In every state of a schedule the slots hold what their last touches say. -/
theorem held_moves (s : Sequencer) (ms : List Move) :
    (s.rebuilt.moves ms).ledger.Held (s.rebuilt.OnTime ms) :=
  (held_rebuilt s _).goes (goes_moves (wellFormed_rebuilt s) id)

theorem Reachable.held {s : Sequencer} (h : s.Reachable) : s.ledger.Held False := by
  induction h with
  | built s => exact held_rebuilt s False
  | move m hs ih => exact ih.goes (goes_move hs.wellFormed m False.elim)

end Sequencer

end SpriteStage
