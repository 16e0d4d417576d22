import SpriteStage.Proofs.Sequencer.Touches
import SpriteStage.Proofs.Sequencer.UndoStack

/-!
# An undo is final

After an undo no run goes on and nobody owns a slot. The walkers and the clears of the runs before it
may still be there, in any number, but none of them changes anything any more: a walker is cancelled,
and a clear would have to be that of an owner. Only runs that are started later own slots, so this
stays so for ever. `Ledger.Later` is the invariant, and `Later.happens` its step lemma.
-/

namespace SpriteStage

/-- Whether a note says that a slot was written by a step, brought back or reset: all that is done to
a slot but by a timer. -/
def Note.renews (slot : Slot) : Note → Bool
  | .executed step => (step.action.effect.on slot).isWritten
  | .undone _ => true
  | .reset _ => true
  | _ => false

namespace Motion

variable {m m' m'' : Motion} {slot : Slot}

theorem SameIn.refl (m : Motion) (slot : Slot) : m.SameIn m slot := by
  cases slot <;> rfl

theorem SameIn.trans (h : m.SameIn m' slot) (h' : m'.SameIn m'' slot) : m.SameIn m'' slot := by
  cases slot <;> exact Eq.trans h' h

end Motion

namespace Ledger

/-- What is known of a ledger that comes after one with no current run and no owners. -/
structure Later (before v : Ledger) : Prop where
  runs : v.runs.WellFormed
  lastRun_le : before.runs.lastRun ≤ v.runs.lastRun
  current : ∀ run, v.runs.current = some run → before.runs.lastRun < run
  owner : ∀ slot run, v.store.owner slot = some run → before.runs.lastRun < run
  /-- What was done since: only later runs executed steps, and a slot that nothing renewed is as it
  was and has no owner. -/
  noted : ∃ new, v.journal = new ++ before.journal ∧
    (∀ step, .executed step ∈ new → before.runs.lastRun < step.run) ∧
    ∀ slot, (∀ n ∈ new, n.renews slot = false) →
      v.store.owner slot = none ∧ before.store.motion.SameIn v.store.motion slot

namespace Later

variable {punctual : Prop} {before v v' : Ledger}

/-- One more note. -/
theorem note (h : before.Later v) {n : Note} (hjournal : v'.journal = n :: v.journal)
    (hrun : ∀ step, n = .executed step → before.runs.lastRun < step.run)
    (hslot : ∀ slot, n.renews slot = false → v.store.owner slot = none →
      v'.store.owner slot = none ∧ v.store.motion.SameIn v'.store.motion slot) :
    ∃ new, v'.journal = new ++ before.journal ∧
      (∀ step, .executed step ∈ new → before.runs.lastRun < step.run) ∧
      ∀ slot, (∀ n ∈ new, n.renews slot = false) →
        v'.store.owner slot = none ∧ before.store.motion.SameIn v'.store.motion slot := by
  obtain ⟨new, hnew, hsteps, hslots⟩ := h.noted
  refine ⟨n :: new, by rw [hjournal, hnew, List.cons_append], ?_, ?_⟩
  · intro step hstep
    rcases List.mem_cons.mp hstep with heq | hstep
    · exact hrun step heq.symm
    · exact hsteps step hstep
  · intro slot hnone
    obtain ⟨howner, hsame⟩ := hslots slot fun m hm => hnone m (List.mem_cons_of_mem n hm)
    obtain ⟨howner', hsame'⟩ := hslot slot (hnone n List.mem_cons_self) howner
    exact ⟨howner', hsame.trans hsame'⟩

/-- A clear finds no owner in a slot that nothing renewed. -/
theorem clear_of_no_owner {store : Store} {slot other : Slot} (h : store.owner slot = none)
    (run : Stamp) : (store.clear other run).owner slot = none ∧
      store.motion.SameIn (store.clear other run).motion slot := by
  by_cases hslot : other = slot
  · subst hslot
    have howns : store.owns other run = false := by
      rw [← Bool.not_eq_true, Store.owns_iff, h]
      exact nofun
    rw [Store.clear_of_not_owns howns]
    exact ⟨h, Motion.SameIn.refl _ _⟩
  · obtain ⟨howner, hsame⟩ := Store.clear_of_ne hslot store run
    exact ⟨howner.trans h, hsame⟩

/-- What can happen lets only later runs go on and own slots. -/
theorem happens (h : before.Later v) (hv : Happens punctual v v') : before.Later v' := by
  cases hv with
  | executes step hcurrent htime =>
      have hrun := h.current _ hcurrent
      refine ⟨h.runs, h.lastRun_le, h.current, ?_, h.note (n := .executed step) rfl ?_ ?_⟩
      · intro slot run howner
        have howner : (v.store.applyStep _ _ _).owner slot = some run := howner
        rw [Store.owner_applyStep] at howner
        split at howner
        · exact Option.some.inj howner ▸ hrun
        · exact h.owner slot run howner
      · rintro _ ⟨⟩
        exact hrun
      · intro slot hnone howner
        have hnone : ¬ (step.action.effect.on slot).isWritten = true := by
          rw [Bool.not_eq_true]
          exact hnone
        refine ⟨?_, Action.apply_of_untouched (SlotWrite.eq_untouched hnone) _ _⟩
        show (v.store.applyStep _ _ _).owner slot = none
        rw [Store.owner_applyStep, if_neg hnone]
        exact howner
  | fires alarm others halarms hdue =>
      refine ⟨h.runs, h.lastRun_le, h.current, ?_, h.note rfl ?_ ?_⟩
      · intro slot run howner
        exact h.owner slot run (Store.owner_clear howner)
      · intro step hstep
        cases hstep
      · intro slot _ howner
        exact clear_of_no_owner howner alarm.clear.run
  | ends alarm others halarms hcancelled =>
      exact ⟨h.runs, h.lastRun_le, h.current, h.owner, h.noted⟩
  | opens event =>
      refine ⟨h.runs.start, ?_, ?_, ?_, h.note rfl ?_ ?_⟩
      · show before.runs.lastRun ≤ v.runs.start.2.lastRun
        rw [Runs.lastRun_start]
        exact Nat.le_succ_of_le h.lastRun_le
      · intro run hrun
        obtain ⟨active, hactive, rfl⟩ := Option.map_eq_some_iff.mp hrun
        rw [(h.runs.start.active active hactive).last, Runs.lastRun_start]
        exact Nat.lt_succ_of_le h.lastRun_le
      · intro slot run howner
        exact h.owner slot run ((Store.owner_push _ _ slot).symm.trans howner)
      · intro step hstep
        cases hstep
      · intro slot _ howner
        refine ⟨(Store.owner_push _ _ slot).trans howner, ?_⟩
        cases slot <;> rfl
  | cancels =>
      refine ⟨h.runs.cancelActive, ?_, ?_, h.owner, h.noted⟩
      · show before.runs.lastRun ≤ v.runs.cancelActive.lastRun
        rw [Runs.cancelActive_lastRun]
        exact h.lastRun_le
      · intro run hrun
        cases v.runs.current_cancelActive.symm.trans hrun
  | undoes entry older hhistory =>
      refine ⟨h.runs, h.lastRun_le, h.current, ?_, h.note (n := .undone v.now) rfl ?_ ?_⟩
      · intro slot run howner
        cases (Store.owner_restore _ _ slot).symm.trans howner
      · intro step hstep
        cases hstep
      · intro slot hnone
        cases hnone
  | resets =>
      refine ⟨h.runs.reset, h.lastRun_le, ?_, ?_, h.note (n := .reset v.now) rfl ?_ ?_⟩
      · intro run hrun
        cases hrun
      · intro slot run howner
        cases (Store.owner_reset _ slot).symm.trans howner
      · intro step hstep
        cases hstep
      · intro slot hnone
        cases hnone
  | passes ms alarms hsame honTime => exact ⟨h.runs, h.lastRun_le, h.current, h.owner, h.noted⟩

theorem goes (h : before.Later v) (hv : Goes punctual v v') : before.Later v' := by
  induction hv with
  | refl => exact h
  | tail _ hstep ih => exact ih.happens hstep

end Later

end Ledger

def Work.run : Work → Stamp
  | .walk w => w.run
  | .clear c => c.run

theorem Work.Fits.run_le_lastRun {r : Runs} {work : Work} (h : work.Fits r) :
    work.run ≤ r.lastRun := by
  cases work with
  | walk w => exact Walker.Fits.run_le h
  | clear c => exact Clear.Fits.run_le h

namespace Sequencer

variable {s : Sequencer}

/-! ## After a quiet state -/

theorem Quiet.later (h : s.Quiet) (hs : s.WellFormed) (ms : List Move) :
    s.ledger.Later (s.moves ms).ledger := by
  have hnow : s.ledger.Later s.ledger := by
    refine ⟨hs.runs, Nat.le_refl _, ?_, ?_, [], rfl, ?_, ?_⟩
    · intro run hrun
      cases (show s.runs.current = none from h.current).symm.trans hrun
    · intro slot run howner
      cases slot with
      | text => cases h.text.symm.trans howner
      | animation => cases h.animation.symm.trans howner
    · intro step hstep
      cases hstep
    · intro slot _
      refine ⟨?_, Motion.SameIn.refl _ _⟩
      cases slot with
      | text => exact h.text
      | animation => exact h.animation
  have hgoes : Ledger.Goes False s.ledger (s.moves ms).ledger := goes_moves hs False.elim
  exact hnow.goes hgoes

/-- The tasks of the runs before a quiet state never change anything of the store, whatever is started
after it. -/
theorem Quiet.turnAt_spent (h : s.Quiet) (hs : s.WellFormed) (ms : List Move) {place : Nat}
    {t : Ready} (ht : (s.moves ms).ready[place]? = some t) (hrun : t.work.run ≤ s.runs.lastRun)
    (dueFirst : Bool) : ((s.moves ms).turnAt place dueFirst).store = (s.moves ms).store := by
  have hlater := h.later hs ms
  have hfits : t.work.Fits (s.moves ms).runs :=
    (hs.moves ms).fits t ((tasks_without_perm ht).mem_iff.mpr List.mem_cons_self)
  rw [turnAt_of_some ht]
  obtain ⟨work, due⟩ := t
  cases work with
  | walk w =>
      -- a walker that is not cancelled would belong to a later run
      have hcancelled : ((s.moves ms).without place).isCancelled (.walk w) = true := by
        rw [← Bool.not_eq_false]
        intro hlive
        have hcurrent := Runs.current_of_active (hfits.live hlive).1
        exact absurd (hlater.current _ hcurrent) (Nat.not_lt.mpr hrun)
      show (((s.moves ms).without place).walkerTurn w due).store = _
      rw [walkerTurn_of_cancelled hcancelled, leave_store]
      rfl
  | clear c =>
      refine clearTurn_store (s := (s.moves ms).without place) ?_ dueFirst due
      rw [← Bool.not_eq_true, Store.owns_iff]
      intro howner
      exact absurd (hlater.owner c.slot c.run howner) (Nat.not_lt.mpr hrun)

theorem Quiet.moves_store (h : s.Quiet) (hs : s.WellFormed) {ms : List Move}
    (hms : ∀ m ∈ s.stackMoves ms, m = .keep) : (s.moves ms).store = s.store := by
  induction ms generalizing s with
  | nil => rfl
  | cons m ms ih =>
      rw [stackMoves, List.forall_mem_cons] at hms
      obtain ⟨hstore, hquiet⟩ := h.move hs hms.1
      rw [moves_cons, ih hquiet (hs.move m) hms.2, hstore]

/-- While no run is started and nothing is reset, the sprite is the one that was brought back last: as
many snapshots down as undos succeeded. -/
theorem Quiet.moves_motion (h : s.Quiet) (hs : s.WellFormed) {entry : Snapshot}
    (hentry : s.store.motion = entry.motion) {ms : List Move}
    (hms : ∀ m ∈ s.stackMoves ms, m.isPush = false ∧ m.isClear = false) :
    ∃ last, (entry :: s.store.history)[(s.stackMoves ms).countP StackMove.isPop]? = some last ∧
      (s.moves ms).store.motion = last.motion := by
  induction ms generalizing s entry with
  | nil => exact ⟨entry, rfl, hentry⟩
  | cons m ms ih =>
      rw [stackMoves, List.forall_mem_cons] at hms
      obtain ⟨hm, hms⟩ := hms
      rw [stackMoves, moves_cons]
      cases hmove : s.stackMove m with
      | push entry =>
          rw [hmove] at hm
          cases hm.1
      | clear =>
          rw [hmove] at hm
          cases hm.2
      | keep =>
          obtain ⟨hstore, hquiet⟩ := h.move hs hmove
          rw [List.countP_cons_of_neg Bool.false_ne_true, ← hstore]
          exact ih hquiet (hs.move m) (hstore ▸ hentry) hms
      | pop =>
          -- the next snapshot is the one that is brought back
          obtain ⟨rfl, hundo⟩ := stackMove_eq_pop hmove
          obtain ⟨next, hhistory, hmotion, -, -⟩ := undo_of_true hundo
          rw [List.countP_cons_of_pos rfl, List.getElem?_cons_succ, hhistory]
          exact ih (quiet_undo hundo) hs.undo hmotion hms

/-! ## Undo -/

/-- What comes of an undo that succeeds, whatever is done after it. -/
structure UndoIsFinal (s : Sequencer) : Prop where
  /-- The newest snapshot is brought back, without an animation. -/
  restores : ∃ entry, s.store.history = entry :: s.undo.2.store.history ∧
    s.undo.2.store.motion = entry.motion
  /-- Neither time nor the turn of a task nor a call changes anything of the store, and no observer is
  notified, until a run is started, all is reset or another undo succeeds. -/
  stays : ∀ ms, (∀ m ∈ s.undo.2.stackMoves ms, m = .keep) →
    (s.undo.2.moves ms).store = s.undo.2.store
  /-- As long as no run is started and nothing is reset, the sprite is the one that the last undo
  brought back. -/
  older : ∀ ms, (∀ m ∈ s.undo.2.stackMoves ms, m.isPush = false ∧ m.isClear = false) →
    ∃ entry, s.store.history[(s.undo.2.stackMoves ms).countP StackMove.isPop]? = some entry ∧
      (s.undo.2.moves ms).store.motion = entry.motion
  /-- The tasks of the runs before never change anything, also when other runs go on. -/
  spent : ∀ ms place dueFirst t, (s.undo.2.moves ms).ready[place]? = some t →
    t.work.run ≤ s.runs.lastRun →
    ((s.undo.2.moves ms).turnAt place dueFirst).store = (s.undo.2.moves ms).store
  /-- Only runs that are started later execute steps, and what was brought back stays in a slot until
  one of their steps writes the slot, or an undo or a reset does. -/
  renewed : ∀ ms, ∃ new, (s.undo.2.moves ms).journal = new ++ s.undo.2.journal ∧
    (∀ step, .executed step ∈ new → s.runs.lastRun < step.run) ∧
    ∀ slot, ¬ s.undo.2.store.motion.SameIn (s.undo.2.moves ms).store.motion slot →
      ∃ n ∈ new, n.renews slot = true

theorem undo_is_final (hs : s.Reachable) (h : s.undo.1 = true) : s.UndoIsFinal := by
  have hquiet := quiet_undo h
  have hwell := hs.wellFormed.undo
  have hlast : s.undo.2.runs.lastRun = s.runs.lastRun := undo_lastRun s
  obtain ⟨entry, hhistory, hmotion, -, -⟩ := undo_of_true h
  refine ⟨⟨entry, hhistory, hmotion⟩, fun ms hms => hquiet.moves_store hwell hms, ?_, ?_, ?_⟩
  · intro ms hms
    rw [hhistory]
    exact hquiet.moves_motion hwell hmotion hms
  · intro ms place dueFirst t ht hrun
    exact hquiet.turnAt_spent hwell ms ht (hlast ▸ hrun) dueFirst
  · intro ms
    obtain ⟨new, hnew, hsteps, hslots⟩ := (hquiet.later hwell ms).noted
    refine ⟨new, hnew, ?_, ?_⟩
    · intro step hstep
      rw [← hlast]
      exact hsteps step hstep
    · intro slot hchanged
      by_contra hnone
      refine hchanged (hslots slot ?_).2
      intro n hn
      rw [← Bool.not_eq_true]
      intro hrenews
      exact hnone ⟨n, hn, hrenews⟩

/-- Two runs speak, each for some seconds, and none of their clears is due yet. -/
def spoken : List Move :=
  [.call (.replaceProgram
      ⟨[⟨.hat .flagClicked, [.sayForSeconds "first" 1.0]⟩,
        ⟨.hat .spriteClicked, [.thinkForSeconds "second" 2.0, .unrecognized "third"]⟩]⟩),
    .call .run, .turn 0 false, .pass 5, .turn 0 false, .turn 0 false,
    .call (.start .spriteClicked), .turn 0 false, .pass 5, .turn 0 false, .turn 0 false]

/-- The walker of the second run and both clears are left when the second run is undone. -/
theorem undo_is_final_spoken :
    ((threeActions 5).moves spoken).undo.2.tasks.map (fun t => t.work.run) = [2, 1, 2] ∧
      ((threeActions 5).moves spoken).undo.1 = true ∧
      ((threeActions 5).moves spoken).UndoIsFinal := by
  have hreachable : ((threeActions 5).moves spoken).Reachable :=
    (Reachable.built (threeActions 5)).moves spoken
  exact ⟨by decide +kernel, by decide +kernel, undo_is_final hreachable (by decide +kernel)⟩

end Sequencer

end SpriteStage
