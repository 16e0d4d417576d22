import SpriteStage.Proofs.Pointer.Queries
import SpriteStage.Proofs.Sequencer.Calls

/-!
# Reads go unnoticed

Whoever reads the pointer changes nothing for anybody else: two rows of queries that differ in their
reads only get the same answers to all other queries. A sequencer reads the pointer at every step that
it executes. All that its moves do to the tracker is to settle it as of some instant, so the samples
that are accepted are those that a tracker would accept that is told the samples and is never read:
`reads_unseen`.
-/

namespace SpriteStage

open ThrottledPointer

namespace Sequencer

/-! ## What moves do to the tracker -/

/-- No time passes, and the tracker is at most settled. -/
def OnlyReads (s s' : Sequencer) : Prop :=
  s'.now = s.now ∧ (s'.pointer = s.pointer ∨ s'.pointer = s.pointer.promote s.instant)

namespace OnlyReads

variable {s s' s'' : Sequencer}

theorem of_eq (hnow : s'.now = s.now) (hpointer : s'.pointer = s.pointer) : OnlyReads s s' :=
  ⟨hnow, .inl hpointer⟩

theorem trans (h : OnlyReads s s') (h' : OnlyReads s' s'') : OnlyReads s s'' := by
  obtain ⟨hnow, hpointer⟩ := h
  obtain ⟨hnow', hpointer'⟩ := h'
  have hinstant : s'.instant = s.instant := by rw [instant, hnow, instant]
  refine ⟨hnow'.trans hnow, ?_⟩
  rw [hinstant] at hpointer'
  rcases hpointer' with hpointer' | hpointer' <;> rw [hpointer']
  · exact hpointer
  · right
    rcases hpointer with hpointer | hpointer <;> rw [hpointer]
    exact promote_promote (Int.le_refl _)

theorem dispatch (s : Sequencer) (run : Stamp) (script : Nat) (a : Action) :
    OnlyReads s (s.dispatch run script a) := ⟨rfl, .inr rfl⟩

theorem enter (s : Sequencer) (epoch : Nat) : OnlyReads s (s.enter epoch) := by
  unfold Sequencer.enter
  split <;> exact of_eq rfl rfl

theorem leave (s : Sequencer) (epoch : Nat) : OnlyReads s (s.leave epoch) := by
  unfold Sequencer.leave
  split <;> exact of_eq rfl rfl

theorem walkerTurn (s : Sequencer) (w : Walker) (due : Option Nat) :
    OnlyReads s (s.walkerTurn w due) := by
  cases live : s.isCancelled (.walk w) with
  | true =>
      rw [walkerTurn_of_cancelled live]
      exact leave s w.epoch
  | false =>
      refine walkerTurn_induction (P := fun s' _ => OnlyReads s s') (Q := fun s' => OnlyReads s s')
        ?_ ?_ ?_ ?_ live (of_eq rfl rfl) ?_ ?_
      · intro s' a _ _ h
        exact h.trans (dispatch s' _ _ a)
      · intro s' h
        exact h.trans (leave s' _)
      · intro _ _ _ _ h
        exact h
      · intro _ _ _ _ h
        exact h
      · intro a _ _ _ _ _
        exact dispatch s _ _ a
      · intro _ _ _
        exact of_eq rfl rfl

theorem turnAt (s : Sequencer) (place : Nat) (dueFirst : Bool) :
    OnlyReads s (s.turnAt place dueFirst) := by
  have hwithout : OnlyReads s (s.without place) := of_eq rfl rfl
  refine turnAt_induction (Q := OnlyReads s) ?_ ?_ ?_ ?_ ?_
  · intro _
    exact of_eq rfl rfl
  · intro w due _
    exact hwithout.trans (walkerTurn _ w due)
  · intro c due _
    exact hwithout
  · intro c due _
    exact of_eq rfl rfl
  · intro c due d _ _ _
    exact of_eq rfl rfl

theorem startScripts (s : Sequencer) (run : ActiveRun) (epoch : Nat) (scripts : List Script)
    (place : Nat) : OnlyReads s (s.startScripts run epoch scripts place) := by
  induction scripts generalizing s place with
  | nil => exact of_eq rfl rfl
  | cons script scripts ih =>
      rw [startScripts_cons]
      refine OnlyReads.trans ?_ (ih _ (place + 1))
      have hhead := dispatch s run.id place script.head
      unfold startScript
      dsimp only
      split
      · exact hhead
      · exact hhead.trans (enter _ epoch)

theorem start (s : Sequencer) (event : Event) : OnlyReads s (s.start event).2 := by
  rcases start_cases s event with ⟨-, heq⟩ | ⟨-, heq⟩ <;> rw [heq]
  · exact of_eq rfl rfl
  · have hopen : OnlyReads s (s.openRun event).2 := of_eq rfl rfl
    exact hopen.trans (startScripts _ _ _ _ _)

/-- Of all calls only one tells the tracker a sample. -/
theorem call (s : Sequencer) {c : Call} (h : ∀ p, c ≠ .recordPointer p) :
    OnlyReads s (s.call c).2 := by
  cases c with
  | start event => exact start s event
  | run =>
      have hcall : (s.call .run).2 = s.run.2 := rfl
      rw [hcall]
      rcases run_cases s with ⟨-, heq⟩ | ⟨-, heq⟩ <;> rw [heq]
      · exact of_eq rfl rfl
      · exact start s .flagClicked
  | undo =>
      have hcall : (s.call .undo).2 = s.undo.2 := rfl
      rw [hcall]
      rcases undo_cases s with ⟨-, heq⟩ | ⟨_, _, -, heq⟩ <;> rw [heq] <;> exact of_eq rfl rfl
  | reset => exact of_eq rfl rfl
  | replaceProgram program => exact of_eq rfl rfl
  | recordPointer p => exact absurd rfl (h p)
  | readPointer => exact ⟨rfl, .inr rfl⟩
  | recordDrawn p => exact of_eq rfl rfl

end OnlyReads

/-- A move that tells the tracker no sample settles it at most. -/
theorem pointer_move (s : Sequencer) {m : Move} (h : ∀ p, m ≠ .call (.recordPointer p)) :
    (s.move m).pointer = s.pointer ∨ (s.move m).pointer = s.pointer.promote s.instant := by
  cases m with
  | call c => exact (OnlyReads.call s fun p hc => h p (congrArg Move.call hc)).2
  | turn place dueFirst => exact (OnlyReads.turnAt s place dueFirst).2
  | pass ms => exact .inl rfl
  | rejoin => exact .inl rfl

/-! ## The samples of a schedule -/

/-- What the tracker is told in a schedule, and when. -/
def recordings : Sequencer → List Move → List Query
  | _, [] => []
  | s, .call (.recordPointer p) :: ms =>
    .record p s.instant :: recordings (s.move (.call (.recordPointer p))) ms
  | s, m :: ms => recordings (s.move m) ms

theorem instant_le_move (s : Sequencer) (m : Move) : s.instant ≤ (s.move m).instant := by
  have hle := now_le_move s m
  unfold instant
  omega

theorem instant_le_moves (s : Sequencer) (ms : List Move) : s.instant ≤ (s.moves ms).instant := by
  induction ms generalizing s with
  | nil => exact Int.le_refl _
  | cons m ms ih => exact Int.le_trans (instant_le_move s m) (ih _)

theorem instant_le_recordings {s : Sequencer} {ms : List Move} {q : Query}
    (h : q ∈ s.recordings ms) : s.instant ≤ q.time := by
  fun_induction recordings s ms with
  | case1 => cases h
  | case2 s p ms ih =>
      rcases List.mem_cons.mp h with rfl | h
      · exact Int.le_refl _
      · exact Int.le_trans (instant_le_move s _) (ih h)
  | case3 s m ms _ ih => exact Int.le_trans (instant_le_move s m) (ih h)

/-- After a schedule the tracker of a sequencer answers as one that was told the samples only. -/
theorem ask_moves (s : Sequencer) (ms : List Move) {q : Query}
    (h : (s.moves ms).instant ≤ q.time) :
    (s.moves ms).pointer.ask q = (s.pointer.after (s.recordings ms)).ask q := by
  fun_induction recordings s ms with
  | case1 => rfl
  | case2 s p ms ih => exact ih h
  | case3 s m ms hm ih =>
      rw [moves_cons, ih h]
      rcases pointer_move s hm with heq | heq <;> rw [heq]
      refine ask_after_promote (fun q' hq' => ?_) ?_
      · exact Int.le_trans (instant_le_move s m) (instant_le_recordings hq')
      · exact Int.le_trans (instant_le_moves s (m :: ms)) h

end Sequencer

/-- Reads of the pointer change no other answer: neither those of a caller, nor those that a
sequencer makes when it executes its steps. -/
theorem reads_unseen :
    (∀ (t : ThrottledPointer) (qs qs' : List Query) (q : Query),
      InOrder (qs ++ [q]) → InOrder (qs' ++ [q]) →
        qs.filter Query.isRecord = qs'.filter Query.isRecord →
          ((t.after qs).ask q).1 = ((t.after qs').ask q).1) ∧
    ∀ (s : Sequencer) (ms : List Move) (p : Point),
      ((s.moves ms).recordPointer p).1 =
        ((s.pointer.after (s.recordings ms)).record p (s.moves ms).instant).1 := by
  refine ⟨fun t qs qs' q h h' hsame => ?_, fun s ms p => ?_⟩
  · rw [ask_after h, ask_after h', hsame]
  · have hask := congrArg Prod.fst (s.ask_moves ms (q := .record p _) (Int.le_refl _))
    exact Response.recorded.inj hask

/-- Two samples in windows of 200, the second one read while it waits and when it is due. -/
def watched : List Query :=
  [.record ⟨1.0, 1.0⟩ 10, .read 20, .record ⟨2.0, 2.0⟩ 60, .read 209, .read 210, .read 400]

theorem reads_unseen_watched :
    (InOrder (watched ++ [.record ⟨3.0, 3.0⟩ 405]) ∧
      InOrder (watched.filter Query.isRecord ++ [.record ⟨3.0, 3.0⟩ 405])) ∧
    (((ofInterval 200).after watched).ask (.record ⟨3.0, 3.0⟩ 405)).1 =
      (((ofInterval 200).after (watched.filter Query.isRecord)).ask (.record ⟨3.0, 3.0⟩ 405)).1 :=
  ⟨⟨by decide, by decide⟩, reads_unseen.1 _ _ _ _ (by decide) (by decide) rfl⟩

end SpriteStage
