import Mathlib.Data.List.Induction
import SpriteStage.Proofs.Sequencer.Steps
import SpriteStage.Proofs.Sprite.Slots

/-!
# The stack of snapshots

A trigger that starts a run pushes one snapshot, an undo that succeeds pops one, a reset drops all,
and nothing else touches them: `history_move` reads this off the reply to a move. So the history is
the list of snapshots of the triggers that were not undone since the last reset, and an undo brings
back the sprite as it was at the trigger that it matches, whatever happened in between.
-/

namespace SpriteStage

namespace Store

/-- A clear changes nothing while nobody owns a slot. -/
theorem clear_of_no_owner {s : Store} (htext : s.textOwner = none)
    (hanimation : s.animationOwner = none) (slot : Slot) (stamp : Stamp) :
    s.clear slot stamp = s := by
  cases slot
  · apply clearText_of_not_owns
    unfold ownsText
    rw [htext]
    rfl
  · apply clearAnimation_of_not_owns
    unfold ownsAnimation
    rw [hanimation]
    rfl

end Store

inductive StackMove where
  | push (entry : Snapshot)
  | pop
  | clear
  | keep

namespace StackMove

def apply (history : List Snapshot) : StackMove → List Snapshot
  | push entry => entry :: history
  | pop => history.tail
  | clear => []
  | keep => history

def isPush : StackMove → Bool
  | push _ => true
  | _ => false

def isPop : StackMove → Bool
  | pop => true
  | _ => false

def isClear : StackMove → Bool
  | clear => true
  | _ => false

/-- The snapshots that were pushed and not popped since the last clear, newest first. The moves are
given with the last one first, and as many of the newest snapshots are skipped as were popped
later. -/
def pending : (popped : Nat) → List StackMove → List Snapshot
  | _, [] => []
  | 0, push entry :: older => entry :: pending 0 older
  | popped + 1, push _ :: older => pending popped older
  | popped, pop :: older => pending (popped + 1) older
  | _, clear :: _ => []
  | popped, keep :: older => pending popped older

/-- How many snapshots lie above a mark in the stack. Nothing lies above it any more once more was
popped, or all was cleared. -/
def depth : Nat → List StackMove → Option Nat
  | d, [] => some d
  | d, push _ :: moves => depth (d + 1) moves
  | 0, pop :: _ => none
  | d + 1, pop :: moves => depth d moves
  | _, clear :: _ => none
  | d, keep :: moves => depth d moves

end StackMove

/-- What a reply other than that to a reset tells of the stack: a run was started, with a snapshot of
what was before, or an undo succeeded. -/
def Reply.stackMove (r : Reply) (before : Snapshot) : StackMove :=
  match r with
  | .started (some _) => .push before
  | .undone true => .pop
  | _ => .keep

namespace Sequencer

def stackMove (s : Sequencer) : Move → StackMove
  | .call .reset => .clear
  | .call c => (s.call c).1.stackMove s.store.snapshot
  | _ => .keep

def stackMoves : Sequencer → List Move → List StackMove
  | _, [] => []
  | s, m :: ms => s.stackMove m :: stackMoves (s.move m) ms

/-! ## What each move does to the stack -/

@[simp] theorem leave_store (s : Sequencer) (epoch : Nat) : (s.leave epoch).store = s.store := by
  unfold leave
  split <;> rfl

@[simp] theorem walkerTurn_history (s : Sequencer) (w : Walker) (due : Option Nat) :
    (s.walkerTurn w due).store.history = s.store.history := by
  cases live : s.isCancelled (.walk w) with
  | true => rw [walkerTurn_of_cancelled live, leave_store]
  | false =>
      refine walkerTurn_induction (P := fun s' _ => s'.store.history = s.store.history)
        (Q := fun s' => s'.store.history = s.store.history) ?_ ?_ ?_ ?_ live rfl ?_ ?_
      · intro s' a _ _ h
        exact h
      · intro s' h
        rw [leave_store]
        exact h
      · intro s' _ _ _ h
        exact h
      · intro s' _ _ _ h
        exact h
      · intro _ _ _ _ _ _
        rfl
      · intro _ _ _
        rfl

@[simp] theorem turnAt_history (s : Sequencer) (place : Nat) (dueFirst : Bool) :
    (s.turnAt place dueFirst).store.history = s.store.history := by
  refine turnAt_induction (Q := fun s' => s'.store.history = s.store.history) ?_ ?_ ?_ ?_ ?_
  · intro _
    rfl
  · intro w due _
    exact walkerTurn_history (s.without place) w due
  · intro c due _
    rfl
  · intro c due _
    exact Store.history_clear s.store c.slot c.run
  · intro c due d _ _ _
    rfl

@[simp] theorem startScripts_history (s : Sequencer) (run : ActiveRun) (epoch : Nat)
    (scripts : List Script) (place : Nat) :
    (s.startScripts run epoch scripts place).store.history = s.store.history := by
  induction scripts generalizing s place with
  | nil => rfl
  | cons script scripts ih =>
      rw [startScripts_cons, ih]
      unfold startScript enter
      dsimp only
      split
      · rfl
      · split <;> rfl

theorem start_of_none {s : Sequencer} {event : Event} (h : (s.start event).1 = none) :
    (s.start event).2 = s := by
  rcases start_cases s event with ⟨-, heq⟩ | ⟨-, heq⟩
  · rw [heq]
  · rw [heq] at h
    cases h

theorem start_history (s : Sequencer) (event : Event) :
    (s.start event).2.store.history =
      ((Reply.started (s.start event).1).stackMove s.store.snapshot).apply s.store.history := by
  rcases start_cases s event with ⟨-, heq⟩ | ⟨-, heq⟩ <;> rw [heq]
  · rfl
  · rw [startScripts_history]
    rfl

theorem undo_history (s : Sequencer) :
    s.undo.2.store.history =
      ((Reply.undone s.undo.1).stackMove s.store.snapshot).apply s.store.history := by
  rcases undo_cases s with ⟨-, heq⟩ | ⟨entry, older, hhistory, heq⟩ <;> rw [heq]
  · rfl
  · rw [hhistory]
    rfl

/-- Each move does to the history what its reply tells. -/
theorem history_move (s : Sequencer) (m : Move) :
    (s.move m).store.history = (s.stackMove m).apply s.store.history := by
  cases m with
  | turn place dueFirst => exact turnAt_history s place dueFirst
  | pass ms => rfl
  | rejoin => rfl
  | call c =>
      cases c with
      | start event => exact start_history s event
      | run =>
          show s.run.2.store.history =
            ((Reply.started s.run.1).stackMove s.store.snapshot).apply s.store.history
          rcases run_cases s with ⟨-, heq⟩ | ⟨-, heq⟩ <;> rw [heq]
          · rfl
          · exact start_history s .flagClicked
      | undo => exact undo_history s
      | _ => rfl

/-- After a move a run goes on that went on before, with the same history, or the move was a call that
started it. -/
theorem current_move_cases {s : Sequencer} {m : Move} {run : Stamp} (h : (s.move m).current = some run) :
    s.current = some run ∧ (s.move m).store.history = s.store.history ∨
      ∃ c, m = .call c ∧ (s.call c).1 = .started (some run) := by
  have hstart {event : Event} (h : (s.start event).2.current = some run) :
      s.current = some run ∧ (s.start event).2.store.history = s.store.history ∨
        (s.start event).1 = some run := by
    cases hstarted : (s.start event).1 with
    | none =>
        rw [start_of_none hstarted] at h ⊢
        exact .inl ⟨h, rfl⟩
    | some other => exact .inr ((start_current hstarted).2.symm.trans h)
  cases m with
  | turn place dueFirst =>
      exact .inl ⟨(turnAt_current s place dueFirst).symm.trans h, turnAt_history s place dueFirst⟩
  | pass ms => exact .inl ⟨h, rfl⟩
  | rejoin => exact .inl ⟨h, rfl⟩
  | call c =>
      cases c with
      | start event =>
          refine (hstart h).imp_right fun hstarted => ⟨_, rfl, ?_⟩
          exact congrArg Reply.started hstarted
      | run =>
          have h : s.run.2.current = some run := h
          show s.current = some run ∧ s.run.2.store.history = s.store.history ∨ _
          rcases run_cases s with ⟨-, heq⟩ | ⟨-, heq⟩
          · rw [heq] at h ⊢
            exact .inl ⟨h, rfl⟩
          · rw [heq] at h ⊢
            refine (hstart h).imp_right fun hstarted => ⟨_, rfl, ?_⟩
            show Reply.started s.run.1 = _
            rw [heq, hstarted]
      | undo => cases (undo_current s).symm.trans h
      | reset => cases (reset_current s).symm.trans h
      | _ => exact .inl ⟨h, rfl⟩

/-! ## The stack along a schedule -/

theorem history_moves (s : Sequencer) (ms : List Move) :
    (s.moves ms).store.history = (s.stackMoves ms).foldl StackMove.apply s.store.history := by
  induction ms generalizing s with
  | nil => rfl
  | cons m ms ih => rw [moves_cons, ih, history_move, stackMoves, List.foldl_cons]

end Sequencer

theorem StackMove.pending_reverse (moves : List StackMove) (popped : Nat) :
    pending popped moves.reverse = (moves.foldl apply []).drop popped := by
  induction moves using List.reverseRecOn generalizing popped with
  | nil => simp [pending]
  | append_singleton moves m ih =>
      rw [List.reverse_append, List.reverse_singleton, List.singleton_append, List.foldl_append]
      cases m with
      | push entry =>
          cases popped with
          | zero =>
              have := ih 0
              simp only [pending, List.foldl_cons, List.foldl_nil, apply, List.drop_zero] at this ⊢
              rw [this]
          | succ popped => exact ih popped
      | pop =>
          show pending (popped + 1) moves.reverse = _
          rw [ih, List.foldl_cons, List.foldl_nil, apply, List.drop_tail]
      | clear => simp [pending, apply]
      | keep => exact ih popped

def StackMove.sinceClear (moves : List StackMove) : List StackMove :=
  moves.reverse.takeWhile fun m => !m.isClear

theorem StackMove.sinceClear_append_singleton (moves : List StackMove) (m : StackMove) :
    sinceClear (moves ++ [m]) = if m.isClear then [] else m :: sinceClear moves := by
  unfold sinceClear
  rw [List.reverse_append, List.reverse_singleton, List.singleton_append, List.takeWhile_cons]
  cases m.isClear <;> rfl

namespace Sequencer

theorem stackMoves_append (s : Sequencer) (ms ns : List Move) :
    s.stackMoves (ms ++ ns) = s.stackMoves ms ++ (s.moves ms).stackMoves ns := by
  induction ms generalizing s with
  | nil => rfl
  | cons m ms ih => rw [List.cons_append, stackMoves, stackMoves, ih, moves_cons, List.cons_append]

theorem stackMove_eq_pop {s : Sequencer} {m : Move} (h : s.stackMove m = .pop) :
    m = .call .undo ∧ s.undo.1 = true := by
  have hstart (run : Option Stamp) (hrun : (Reply.started run).stackMove s.store.snapshot = .pop) :
      False := by
    cases run <;> cases hrun
  cases m with
  | call c =>
      cases c with
      | start event => exact (hstart _ h).elim
      | run => exact (hstart _ h).elim
      | undo =>
          refine ⟨rfl, ?_⟩
          cases hundo : s.undo.1 with
          | true => rfl
          | false =>
              have h : (Reply.undone s.undo.1).stackMove s.store.snapshot = .pop := h
              rw [hundo] at h
              cases h
      | _ => cases h
  | _ => cases h

theorem stackMove_of_started {s : Sequencer} {c : Call} {run : Stamp}
    (h : (s.call c).1 = .started (some run)) : s.stackMove (.call c) = .push s.store.snapshot := by
  cases c with
  | reset => cases h
  | _ => simp only [stackMove, h, Reply.stackMove]

theorem stackMove_eq_push {s : Sequencer} {m : Move} {entry : Snapshot}
    (h : s.stackMove m = .push entry) : entry = s.store.snapshot := by
  have hreply (r : Reply) (hr : r.stackMove s.store.snapshot = .push entry) :
      entry = s.store.snapshot := by
    unfold Reply.stackMove at hr
    split at hr <;> cases hr
    rfl
  cases m with
  | call c =>
      cases c with
      | start event => exact hreply _ h
      | run => exact hreply _ h
      | undo => exact hreply _ h
      | _ => cases h
  | _ => cases h

/-- An undo that succeeds brings the newest snapshot back, and no clear owns any of it. -/
theorem undo_of_true {s : Sequencer} (h : s.undo.1 = true) :
    ∃ entry, s.store.history = entry :: s.undo.2.store.history ∧
      s.undo.2.store.motion = entry.motion ∧ s.undo.2.store.textOwner = none ∧
      s.undo.2.store.animationOwner = none := by
  rcases undo_cases s with ⟨-, heq⟩ | ⟨entry, older, hhistory, heq⟩
  · rw [heq] at h
    cases h
  · rw [heq]
    exact ⟨entry, hhistory, rfl, rfl, rfl⟩

theorem history_length (s : Sequencer) (ms : List Move) :
    (s.rebuilt.moves ms).store.history.length +
        (StackMove.sinceClear (s.rebuilt.stackMoves ms)).countP StackMove.isPop =
      (StackMove.sinceClear (s.rebuilt.stackMoves ms)).countP StackMove.isPush := by
  induction ms using List.reverseRecOn with
  | nil => rfl
  | append_singleton ms m ih =>
      rw [stackMoves_append, moves_append, moves_cons, moves_nil, history_move]
      simp only [stackMoves, StackMove.sinceClear_append_singleton]
      cases hm : (s.rebuilt.moves ms).stackMove m with
      | push entry =>
          show _ + 1 + List.countP _ (_ :: _) = List.countP _ (_ :: _)
          rw [List.countP_cons_of_neg Bool.false_ne_true, List.countP_cons_of_pos rfl, ← ih]
          omega
      | pop =>
          obtain ⟨-, hundo⟩ := stackMove_eq_pop hm
          obtain ⟨entry, hhistory, -⟩ := undo_of_true hundo
          show List.length (List.tail _) + List.countP _ (_ :: _) = List.countP _ (_ :: _)
          rw [List.countP_cons_of_pos rfl, List.countP_cons_of_neg Bool.false_ne_true, ← ih, hhistory]
          simp only [List.tail_cons, List.length_cons]
          omega
      | clear => rfl
      | keep => exact ih

/-! ## Nothing changes while no run goes on -/

/-- No run goes on, and no clear would change anything. -/
structure Quiet (s : Sequencer) : Prop where
  current : s.current = none
  text : s.store.textOwner = none
  animation : s.store.animationOwner = none

theorem quiet_undo {s : Sequencer} (h : s.undo.1 = true) : s.undo.2.Quiet := by
  obtain ⟨entry, -, -, htext, hanimation⟩ := undo_of_true h
  exact ⟨undo_current s, htext, hanimation⟩

theorem Quiet.of_store {s s' : Sequencer} (h : s.Quiet) (hstore : s'.store = s.store)
    (hcurrent : s'.current = none) : s'.Quiet :=
  ⟨hcurrent, hstore ▸ h.text, hstore ▸ h.animation⟩

theorem Quiet.turnAt_store {s : Sequencer} (h : s.Quiet) (hs : s.WellFormed) (place : Nat)
    (dueFirst : Bool) : (s.turnAt place dueFirst).store = s.store := by
  refine turnAt_induction (Q := fun s' => s'.store = s.store) ?_ ?_ ?_ ?_ ?_
  · intro _
    rfl
  · intro w due ht
    have hfits : w.Fits s.runs :=
      hs.fits _ ((tasks_without_perm ht).mem_iff.mpr List.mem_cons_self)
    -- a walker that is not cancelled would belong to a run that goes on
    have hcancelled : (s.without place).isCancelled (.walk w) = true := by
      rw [← Bool.not_eq_false]
      intro hlive
      have hcurrent := Runs.current_of_active (hfits.live hlive).1
      rw [show s.runs.current = none from h.current] at hcurrent
      cases hcurrent
    rw [walkerTurn_of_cancelled hcancelled, leave_store]
    rfl
  · intro c due _
    rfl
  · intro c due _
    exact Store.clear_of_no_owner h.text h.animation c.slot c.run
  · intro c due d _ _ _
    rfl

theorem Quiet.move {s : Sequencer} (h : s.Quiet) (hs : s.WellFormed) {m : Move}
    (hm : s.stackMove m = .keep) : (s.move m).store = s.store ∧ (s.move m).Quiet := by
  suffices hmove : (s.move m).store = s.store ∧ (s.move m).current = none from
    ⟨hmove.1, h.of_store hmove.1 hmove.2⟩
  have hstart (event : Event)
      (hkeep : (Reply.started (s.start event).1).stackMove s.store.snapshot = .keep) :
      (s.start event).2.store = s.store ∧ (s.start event).2.current = none := by
    cases hrun : (s.start event).1 with
    | none =>
        rw [start_of_none hrun]
        exact ⟨rfl, h.current⟩
    | some run =>
        -- a run that is started pushes
        rw [hrun] at hkeep
        cases hkeep
  cases m with
  | turn place dueFirst =>
      exact ⟨h.turnAt_store hs place dueFirst, (turnAt_current s place dueFirst).trans h.current⟩
  | pass ms => exact ⟨rfl, h.current⟩
  | rejoin => exact ⟨rfl, h.current⟩
  | call c =>
      cases c with
      | start event => exact hstart event hm
      | run =>
          have hm : (Reply.started s.run.1).stackMove s.store.snapshot = .keep := hm
          show s.run.2.store = s.store ∧ s.run.2.current = none
          rcases run_cases s with ⟨-, heq⟩ | ⟨-, heq⟩ <;> rw [heq] at hm ⊢
          · exact ⟨rfl, h.current⟩
          · exact hstart .flagClicked hm
      | undo =>
          refine ⟨?_, undo_current s⟩
          show s.undo.2.store = s.store
          rcases undo_cases s with ⟨-, heq⟩ | ⟨entry, older, -, heq⟩
          · rw [heq]
            rfl
          · have hm : (Reply.undone s.undo.1).stackMove s.store.snapshot = .keep := hm
            rw [heq] at hm
            cases hm
      | reset => cases hm
      | _ => exact ⟨rfl, h.current⟩

/-! ## What lies above a mark -/

/-- The sequencer `s'` has `d` snapshots on top of the history of `s`, the lowest of them that of `s`
itself. With none the sprite is as in `s`, and nothing changes it before the next trigger. -/
def Above (s s' : Sequencer) : Nat → Prop
  | 0 => s'.store.history = s.store.history ∧ s'.store.snapshot = s.store.snapshot ∧ s'.Quiet
  | d + 1 => ∃ later, later.length = d ∧
      s'.store.history = later ++ s.store.snapshot :: s.store.history

namespace Above

variable {s s' : Sequencer} {d : Nat}

theorem push (h : s.Above s' d) {m : Move} {entry : Snapshot} (hm : s'.stackMove m = .push entry)
    (hentry : entry = s'.store.snapshot) : s.Above (s'.move m) (d + 1) := by
  have hhistory := history_move s' m
  rw [hm, hentry, StackMove.apply] at hhistory
  cases d with
  | zero =>
      obtain ⟨hbelow, hsnapshot, -⟩ := h
      refine ⟨[], rfl, ?_⟩
      rw [hhistory, hbelow, hsnapshot, List.nil_append]
  | succ d =>
      obtain ⟨later, hlength, hbelow⟩ := h
      refine ⟨s'.store.snapshot :: later, by rw [List.length_cons, hlength], ?_⟩
      rw [hhistory, hbelow, List.cons_append]

theorem pop (h : s.Above s' (d + 1)) (hm : s'.stackMove (.call .undo) = .pop) :
    s.Above (s'.move (.call .undo)) d := by
  have hundo := (stackMove_eq_pop hm).2
  obtain ⟨entry, hentry, hmotion, -, -⟩ := undo_of_true hundo
  obtain ⟨later, hlength, hhistory⟩ := h
  rw [hhistory] at hentry
  show s.Above s'.undo.2 d
  cases later with
  | nil =>
      obtain ⟨rfl, hbelow⟩ := List.cons.inj hentry
      cases hlength
      refine ⟨hbelow.symm, ?_, quiet_undo hundo⟩
      show s'.undo.2.store.motion.snapshot = _
      rw [hmotion]
      rfl
  | cons newest later =>
      cases hlength
      exact ⟨later, rfl, (List.cons.inj hentry).2.symm⟩

theorem keep (h : s.Above s' d) (hs' : s'.WellFormed) {m : Move} (hm : s'.stackMove m = .keep) :
    s.Above (s'.move m) d := by
  have hhistory := history_move s' m
  rw [hm, StackMove.apply] at hhistory
  cases d with
  | zero =>
      obtain ⟨hbelow, hsnapshot, hquiet⟩ := h
      obtain ⟨hstore, hquiet⟩ := hquiet.move hs' hm
      refine ⟨hhistory.trans hbelow, ?_, hquiet⟩
      rw [hstore]
      exact hsnapshot
  | succ d =>
      obtain ⟨later, hlength, hbelow⟩ := h
      exact ⟨later, hlength, hhistory.trans hbelow⟩

/-- As many snapshots lie above the mark as the replies tell. -/
theorem moves (h : s.Above s' d) (hs' : s'.WellFormed) {ms : List Move} {d' : Nat}
    (hdepth : StackMove.depth d (s'.stackMoves ms) = some d') : s.Above (s'.moves ms) d' := by
  induction ms generalizing s' d with
  | nil =>
      cases hdepth
      exact h
  | cons m ms ih =>
      rw [stackMoves] at hdepth
      cases hm : s'.stackMove m with
      | push entry =>
          rw [hm, StackMove.depth] at hdepth
          exact ih (h.push hm (stackMove_eq_push hm)) (hs'.move m) hdepth
      | pop =>
          obtain ⟨rfl, -⟩ := stackMove_eq_pop hm
          rw [hm] at hdepth
          cases d with
          | zero => cases hdepth
          | succ d => exact ih (h.pop hm) (hs'.move _) hdepth
      | clear =>
          -- a depth is given only as long as nothing cleared the stack
          rw [hm, StackMove.depth] at hdepth
          cases hdepth
      | keep =>
          rw [hm, StackMove.depth] at hdepth
          exact ih (h.keep hs' hm) (hs'.move m) hdepth

end Above

/-- Undo takes back the trigger that it matches. From any state `s` that a sequencer comes to: after a
call that starts a run, and then anything that leaves just that run to be undone, an undo succeeds
and brings back the sprite of `s`, without an animation, and its history. And the history of `s` holds
the snapshots of the triggers that were not undone since the last reset, as many as runs were started
less those undone. -/
theorem undo_inverts_triggers {s s₀ : Sequencer} {before : List Move}
    (hs : s = s₀.rebuilt.moves before) :
    (∀ c run ms, (s.call c).1 = .started (some run) →
      StackMove.depth 1 ((s.call c).2.stackMoves ms) = some 1 →
      ((s.call c).2.moves ms).undo.1 = true ∧
      ((s.call c).2.moves ms).undo.2.store.motion = { s.store.motion with animation := none } ∧
      ((s.call c).2.moves ms).undo.2.store.history = s.store.history) ∧
    s.store.history = StackMove.pending 0 (s₀.rebuilt.stackMoves before).reverse ∧
    s.store.history.length +
        (StackMove.sinceClear (s₀.rebuilt.stackMoves before)).countP StackMove.isPop =
      (StackMove.sinceClear (s₀.rebuilt.stackMoves before)).countP StackMove.isPush := by
  subst hs
  have hreachable := (Reachable.built s₀).moves before
  refine ⟨?_, ?_, history_length s₀ before⟩
  · intro c run ms hstarted hdepth
    have hpush := history_move (s₀.rebuilt.moves before) (.call c)
    rw [stackMove_of_started hstarted] at hpush
    have habove : (s₀.rebuilt.moves before).Above ((s₀.rebuilt.moves before).call c).2 1 :=
      ⟨[], rfl, hpush⟩
    obtain ⟨later, hlength, hhistory⟩ := habove.moves (hreachable.wellFormed.call c) hdepth
    rw [List.length_eq_zero_iff.mp hlength, List.nil_append] at hhistory
    -- just the snapshot taken at the call is on top of the history from before
    rcases undo_cases (((s₀.rebuilt.moves before).call c).2.moves ms) with
      ⟨hnil, -⟩ | ⟨entry, older, hcons, heq⟩
    · rw [hhistory] at hnil
      cases hnil
    · rw [hhistory] at hcons
      obtain ⟨rfl, rfl⟩ := List.cons.inj hcons
      rw [heq]
      exact ⟨rfl, rfl, rfl⟩
  · rw [history_moves, StackMove.pending_reverse, List.drop_zero]
    rfl

def greeted : Sequencer :=
  (threeActions 5).rebuilt.moves
    [.call (.replaceProgram
        ⟨[⟨.hat .spriteClicked, [.say "hello"]⟩, ⟨.hat .flagClicked, [.say "goodbye"]⟩]⟩),
      .call (.start .spriteClicked), .turn 0 false, .pass 5, .turn 0 false]

/-- The script of the flag is undone in the middle, started again, and says goodbye. -/
def partings : List Move :=
  [.turn 0 false, .call .undo, .turn 0 false, .call .run, .turn 0 false, .pass 5, .turn 0 false]

def parted : Sequencer := (greeted.call .run).2.moves partings

/-- Undone for good, the sprite says hello again, and the click can still be undone. -/
theorem undo_inverts_triggers_twice :
    (greeted.call .run).1 = .started (some 2) ∧
    StackMove.depth 1 ((greeted.call .run).2.stackMoves partings) = some 1 ∧
    parted.store.motion.text.message = "goodbye" ∧ parted.undo.1 = true ∧
    parted.undo.2.store.motion = { greeted.store.motion with animation := none } ∧
    greeted.store.motion.text.message = "hello" ∧
    parted.undo.2.store.history = greeted.store.history ∧
    greeted.store.history.length = 1 := by
  have hstarted : (greeted.call .run).1 = .started (some 2) := by
    have hrun : greeted.run.1 = some 2 := by decide +kernel
    rw [call, Prod.map_fst, hrun]
  have hdepth : StackMove.depth 1 ((greeted.call .run).2.stackMoves partings) = some 1 := by
    decide +kernel
  obtain ⟨hundo, -, -⟩ := undo_inverts_triggers (s := greeted) rfl
  obtain ⟨hany, hmotion, hhistory⟩ := hundo .run 2 partings hstarted hdepth
  exact ⟨hstarted, hdepth, by decide +kernel, hany, hmotion, by decide +kernel, hhistory,
    by decide +kernel⟩

end Sequencer

end SpriteStage
