import SpriteStage.Proofs.Sequencer.Leftovers
import SpriteStage.Proofs.Sequencer.Owners
import SpriteStage.Proofs.Sequencer.Settling

/-!
# Twins

Two sequencers are twins when one goes on since a past as the other would go on after it, but for
tasks that are left over. Whatever is done to both keeps them twins. A turn of a task that is left
over is a turn of none of the other's; every other turn is a turn of the same task at another place
of the queue.
-/

namespace SpriteStage

/-! ## Places in a queue of which some tasks are not counted -/

section

variable {α : Type} {counts : α → Bool} {l : List α} {a : α} {i j : Nat}

theorem filter_eraseIdx_of_neg (h : l[i]? = some a) (ha : counts a = false) :
    (l.eraseIdx i).filter counts = l.filter counts := by
  induction l generalizing i with
  | nil => rfl
  | cons b l ih =>
      cases i with
      | zero =>
          cases h
          rw [List.eraseIdx_cons_zero, List.filter_cons_of_neg (by simp [ha])]
      | succ i => rw [List.eraseIdx_cons_succ, List.filter_cons, List.filter_cons, ih h]

/-- What counts has as many before it as count of those before it. -/
theorem getElem?_filter_countP (h : l[i]? = some a) (ha : counts a = true) :
    (l.filter counts)[(l.take i).countP counts]? = some a := by
  induction l generalizing i with
  | nil => cases h
  | cons b l ih =>
      cases i with
      | zero =>
          cases h
          rw [List.filter_cons_of_pos ha]
          rfl
      | succ i =>
          have ih := ih h
          rw [List.take_succ_cons, List.countP_cons, List.filter_cons]
          split
          · exact ih
          · exact ih

theorem filter_eraseIdx_of_pos (h : l[i]? = some a) (ha : counts a = true) :
    (l.eraseIdx i).filter counts = (l.filter counts).eraseIdx ((l.take i).countP counts) := by
  induction l generalizing i with
  | nil => rfl
  | cons b l ih =>
      cases i with
      | zero =>
          cases h
          rw [List.filter_cons_of_pos ha]
          rfl
      | succ i =>
          have ih := ih h
          rw [List.eraseIdx_cons_succ, List.take_succ_cons, List.countP_cons, List.filter_cons,
            List.filter_cons, ih]
          split
          · rfl
          · rfl

theorem exists_of_getElem?_filter (h : (l.filter counts)[j]? = some a) :
    ∃ i, l[i]? = some a ∧ counts a = true ∧ (l.take i).countP counts = j := by
  induction l generalizing j with
  | nil => cases h
  | cons b l ih =>
      rw [List.filter_cons] at h
      split at h
      · rename_i hb
        cases j with
        | zero =>
            cases h
            exact ⟨0, rfl, hb, rfl⟩
        | succ j =>
            obtain ⟨i, hi, ha, hcount⟩ := ih h
            refine ⟨i + 1, hi, ha, ?_⟩
            rw [List.take_succ_cons, List.countP_cons_of_pos hb, hcount]
      · rename_i hb
        obtain ⟨i, hi, ha, hcount⟩ := ih h
        refine ⟨i + 1, hi, ha, ?_⟩
        rw [List.take_succ_cons, List.countP_cons_of_neg hb, hcount]

end

namespace Sequencer

/-- `s` goes on since a past as `f` would after it, but for what is left over. -/
structure Twin (p : Past) (s f : Sequencer) : Prop where
  same : s.sweep p = f.after p
  here : s.Reachable
  there : f.Reachable

namespace Twin

variable {p : Past} {s f : Sequencer}

theorem runs (h : Twin p s f) : s.runs = f.runs.after p := congrArg Sequencer.runs h.same

theorem store (h : Twin p s f) : s.store = f.store.after p := congrArg Sequencer.store h.same

theorem ready (h : Twin p s f) :
    s.ready.filter (fun t => !t.work.isLeftover p) = f.ready.map (Ready.after p) :=
  congrArg Sequencer.ready h.same

theorem now (h : Twin p s f) : s.now = f.now := by
  have hnow : (s.sweep p).now = (f.after p).now := congrArg Sequencer.now h.same
  exact hnow

theorem asleep (h : Twin p s f) : s.asleep = f.asleep.map (Sleeper.after p) :=
  congrArg Sequencer.asleep h.same

theorem since (h : Twin p s f) : s.Since p where
  opened_le := by
    rw [h.runs]
    exact Nat.le_add_right _ _
  session := by
    rw [h.runs]
    exact p.isCancelled_after f.runs.session
  cancelled := by
    intro scope hscope
    rw [h.runs]
    exact Scopes.isCancelled_of_past p hscope f.runs.scopes
  epoch_le := by
    rw [h.runs]
    exact Nat.le_add_right _ _
  owners := by
    intro slot run hrun
    rw [h.store] at hrun
    obtain ⟨later, rfl, hlater⟩ := Store.exists_of_owns_after hrun
    exact Nat.lt_add_of_pos_right (h.there.owned slot later hlater).1
  asleep := by
    intro t ht
    rw [h.asleep] at ht
    obtain ⟨sleeper, -, rfl⟩ := List.mem_map.mp ht
    exact Work.isLeftover_after p sleeper.work

/-- What is queued in a scope of the past is left over. -/
theorem isLeftover_of_lt (h : Twin p s f) {t : Ready} (ht : t ∈ s.ready)
    (hlt : t.work.scope.number < p.scopes.opened) : t.work.isLeftover p = true := by
  cases hleft : t.work.isLeftover p with
  | true => rfl
  | false =>
      have hmem : t ∈ s.ready.filter fun t => !t.work.isLeftover p :=
        List.mem_filter.mpr ⟨ht, by rw [hleft]; rfl⟩
      rw [h.ready] at hmem
      obtain ⟨later, -, rfl⟩ := List.mem_map.mp hmem
      rw [show (later.after p).work = later.work.after p from rfl, Work.scope_after] at hlt
      exact absurd hlt (Nat.not_lt_of_le (Nat.le_add_right _ _))

/-! ## Turns -/

theorem turnAt_leftover (h : Twin p s f) {place : Nat} {t : Ready}
    (ht : s.ready[place]? = some t) (hleft : t.work.isLeftover p = true) (dueFirst : Bool) :
    Twin p (s.turnAt place dueFirst) f := by
  have hwithout : (s.without place).sweep p = s.sweep p := by
    unfold without sweep
    rw [filter_eraseIdx_of_neg ht (by rw [hleft]; rfl)]
  refine ⟨?_, h.here.move (.turn place dueFirst), h.there⟩
  rw [turnAt_of_some ht, sweep_turn_leftover (h.since.without place) hleft, hwithout]
  exact h.same

def placeOf (p : Past) (s : Sequencer) (place : Nat) : Nat :=
  (s.ready.take place).countP fun t => !t.work.isLeftover p

theorem turnAt_other (h : Twin p s f) {place : Nat} {t : Ready}
    (ht : s.ready[place]? = some t) (hleft : t.work.isLeftover p = false) (dueFirst : Bool) :
    Twin p (s.turnAt place dueFirst) (f.turnAt (placeOf p s place) dueFirst) := by
  have hcounts : (!t.work.isLeftover p) = true := by rw [hleft]; rfl
  have hplace : (s.sweep p).ready[placeOf p s place]? = some t := getElem?_filter_countP ht hcounts
  have hwithout : (s.without place).sweep p = (s.sweep p).without (placeOf p s place) := by
    unfold without sweep
    rw [filter_eraseIdx_of_pos ht hcounts]
    rfl
  have hrun : ∀ c, t.work = .clear c → p.runs < c.run := by
    -- the clear is also in the other's queue, where its run has a number of the other's
    intro c hc
    have hmem := List.mem_of_getElem? hplace
    rw [h.same] at hmem
    obtain ⟨t', ht', rfl⟩ := List.mem_map.mp hmem
    have hfits := h.there.wellFormed.fits t' (List.mem_append_left _ (List.mem_append_left _ ht'))
    cases hwork : t'.work with
    | walk w =>
        rw [show (t'.after p).work = t'.work.after p from rfl, hwork] at hc
        cases hc
    | clear c' =>
        rw [show (t'.after p).work = t'.work.after p from rfl, hwork] at hc
        cases hc
        rw [hwork] at hfits
        exact Nat.lt_add_of_pos_right hfits.run_pos
  refine ⟨?_, h.here.move (.turn place dueFirst), h.there.move (.turn _ dueFirst)⟩
  rw [turnAt_of_some ht, sweep_turn (s := s.without place) h.since.session hleft hrun, hwithout,
    ← turnAt_of_some hplace, h.same, turnAt_after]

/-- Beyond the queue there is no task to have a turn. -/
theorem turnAt_beyond (f : Sequencer) (dueFirst : Bool) : f.turnAt f.ready.length dueFirst = f :=
  turnAt_of_none (List.getElem?_eq_none (Nat.le_refl _))

/-- Every turn is one of the other's, if need be one of no task. -/
theorem turnAt (h : Twin p s f) (place : Nat) (dueFirst : Bool) :
    ∃ place', Twin p (s.turnAt place dueFirst) (f.turnAt place' dueFirst) := by
  cases ht : s.ready[place]? with
  | none =>
      refine ⟨f.ready.length, ?_⟩
      rw [turnAt_of_none ht, turnAt_beyond]
      exact h
  | some t =>
      cases hleft : t.work.isLeftover p with
      | true =>
          refine ⟨f.ready.length, ?_⟩
          rw [turnAt_beyond]
          exact h.turnAt_leftover ht hleft dueFirst
      | false => exact ⟨_, h.turnAt_other ht hleft dueFirst⟩

/-- And every turn of the other is a turn of this one. -/
theorem turnAt_back (h : Twin p s f) (place : Nat) (dueFirst : Bool) :
    ∃ place', Twin p (s.turnAt place' dueFirst) (f.turnAt place dueFirst) := by
  cases ht : f.ready[place]? with
  | none =>
      refine ⟨s.ready.length, ?_⟩
      rw [turnAt_of_none ht, turnAt_beyond]
      exact h
  | some t =>
      have hready : (s.ready.filter fun t => !t.work.isLeftover p)[place]? = some (t.after p) := by
        rw [h.ready, List.getElem?_map, ht]
        rfl
      obtain ⟨place', ht', hcounts, hplace⟩ := exists_of_getElem?_filter hready
      refine ⟨place', ?_⟩
      have hturn := h.turnAt_other ht' (Work.isLeftover_after p t.work) dueFirst
      rwa [show placeOf p s place' = place from hplace] at hturn

/-! ## Other moves -/

theorem call (h : Twin p s f) (c : Call) :
    (s.call c).1 = (f.call c).1.after p.runs ∧ Twin p (s.call c).2 (f.call c).2 := by
  have hcall := sweep_call h.since c
  rw [h.same, call_after] at hcall
  exact ⟨(congrArg Prod.fst hcall).symm, (congrArg Prod.snd hcall).symm, h.here.move (.call c),
    h.there.move (.call c)⟩

theorem pass (h : Twin p s f) (ms : Nat) : Twin p (s.move (.pass ms)) (f.move (.pass ms)) := by
  refine ⟨?_, h.here.move (.pass ms), h.there.move (.pass ms)⟩
  rw [move_pass, move_pass, h.now, sweep_wakeAt h.since, h.same, wakeAt_after]

theorem rejoin (h : Twin p s f) : Twin p s.rejoin f.rejoin := by
  refine ⟨?_, h.here.move .rejoin, h.there.move .rejoin⟩
  rw [sweep_rejoin, h.same, rejoin_after]

/-- Whatever is done to one can be done to the other. -/
theorem moves (h : Twin p s f) (ms : List Move) : ∃ ns, Twin p (s.moves ms) (f.moves ns) := by
  induction ms generalizing s f with
  | nil => exact ⟨[], h⟩
  | cons m ms ih =>
      obtain ⟨n, hn⟩ : ∃ n, Twin p (s.move m) (f.move n) := by
        cases m with
        | call c => exact ⟨.call c, (h.call c).2⟩
        | turn place dueFirst =>
            obtain ⟨place', hturn⟩ := h.turnAt place dueFirst
            exact ⟨.turn place' dueFirst, hturn⟩
        | pass ms => exact ⟨.pass ms, h.pass ms⟩
        | rejoin => exact ⟨.rejoin, h.rejoin⟩
      obtain ⟨ns, hns⟩ := ih hn
      exact ⟨n :: ns, hns⟩

/-! ## In the order of the queue

With a delay the rounds make no difference, so twins stay twins when all their tasks have their turns
in the order of the queue.
-/

theorem delay (h : Twin p s f) (hdelay : s.stepTime ≠ 0) : f.stepTime ≠ 0 := by
  have hstepTime : (s.sweep p).stepTime = (f.after p).stepTime := congrArg stepTime h.same
  rw [stepTime_after] at hstepTime
  rw [← hstepTime]
  exact hdelay

theorem settleFrom (h : Twin p s f) (hdelay : s.stepTime ≠ 0) (left left' : Nat) :
    Twin p (s.settleFrom left) (f.settleFrom left') := by
  fun_induction Sequencer.settleFrom left s generalizing f left' with
  | case1 left s hnil =>
      have hround := nextRound_of_yielded (h.there.yielded (h.delay hdelay)) left'
      rw [nextRound_of_yielded (h.here.yielded hdelay)] at hnil ⊢
      have hready := h.ready
      rw [hnil] at hready
      have hready : (f.nextRound left').1.ready = [] := by
        rw [hround]
        exact List.map_eq_nil_iff.mp hready.symm
      rw [settleFrom_of_nil hready, hround]
      exact h
  | case2 left s t rest hcons ih =>
      have hround := nextRound_of_yielded (h.there.yielded (h.delay hdelay)) left'
      rw [nextRound_of_yielded (h.here.yielded hdelay)] at hcons ih ⊢
      have hfirst : s.ready[0]? = some t := by rw [hcons]; rfl
      rw [← turnAt_zero hcons] at ih ⊢
      have hdelay' : (s.turnAt 0 false).stepTime ≠ 0 := by
        rw [stepTime_of_frame (turnAt_frame s 0 false)]
        exact hdelay
      cases hleft : t.work.isLeftover p with
      | true =>
          -- only this one takes a turn, so the other keeps what it has left
          exact ih (h.turnAt_leftover hfirst hleft false) hdelay' left'
      | false =>
          have hready := h.ready
          rw [hcons, List.filter_cons_of_pos (by rw [hleft]; rfl)] at hready
          obtain ⟨t', rest', hcons', -, -⟩ := List.map_eq_cons_iff.mp hready.symm
          have hready' : (f.nextRound left').1.ready = t' :: rest' := by
            rw [hround]
            exact hcons'
          rw [settleFrom_of_cons hready', hround]
          rw [← turnAt_zero hcons']
          exact ih (h.turnAt_other hfirst hleft false) hdelay' _

theorem settle (h : Twin p s f) (hdelay : s.stepTime ≠ 0) : Twin p s.settle f.settle :=
  h.settleFrom hdelay _ _

theorem nextDue?_eq (h : Twin p s f) : s.nextDue? = f.nextDue? := by
  have hdue : (s.sweep p).nextDue? = (f.after p).nextDue? := congrArg nextDue? h.same
  rw [nextDue?_after] at hdue
  exact hdue

theorem wakeAt (h : Twin p s f) {time : Nat} (htime : s.now ≤ time) :
    Twin p (s.wakeAt time) (f.wakeAt time) := by
  have hpass := h.pass (time - s.now)
  rw [move_pass, move_pass, ← h.now, Nat.add_sub_cancel' htime] at hpass
  exact hpass

theorem runUntil (h : Twin p s f) (hdelay : s.stepTime ≠ 0) {goOn : Sequencer → Bool}
    (hgoOn : ∀ {s f}, Twin p s f → goOn s = goOn f) (last : Nat) :
    Twin p (runUntil goOn last s) (runUntil goOn last f) := by
  fun_induction Sequencer.runUntil goOn last s generalizing f with
  | case1 s hstop =>
      rw [Sequencer.runUntil, ← hgoOn h, if_pos hstop]
      exact h
  | case2 s hgo hnone =>
      rw [Sequencer.runUntil, ← hgoOn h, if_neg hgo, ← h.nextDue?_eq, hnone]
      exact h
  | case3 s hgo due hdue hcond ih =>
      have hwake := h.wakeAt (Nat.le_of_lt hcond.1)
      have hdelay' : (s.wakeAt due).stepTime ≠ 0 := hdelay
      have hsettle := hwake.settle hdelay'
      have hnow : f.now < due ∧ due ≤ last := by
        rw [← h.now]
        exact hcond
      have hf : Sequencer.runUntil goOn last f =
          Sequencer.runUntil goOn last (f.wakeAt due).settle := by
        conv_lhs => rw [Sequencer.runUntil, ← hgoOn h, if_neg hgo, ← h.nextDue?_eq, hdue]
        exact if_pos hnow
      rw [hf]
      refine ih hsettle ?_
      rw [(settle_goes _).stepTime_eq]
      exact hdelay'
  | case4 s hgo due hdue hcond =>
      have hnow : ¬(f.now < due ∧ due ≤ last) := by
        rw [← h.now]
        exact hcond
      rw [Sequencer.runUntil, ← hgoOn h, if_neg hgo, ← h.nextDue?_eq, hdue]
      dsimp only
      rw [if_neg hnow]
      exact h

theorem wait (h : Twin p s f) (hdelay : s.stepTime ≠ 0) (ms : Nat) :
    Twin p (s.wait ms) (f.wait ms) := by
  unfold Sequencer.wait
  dsimp only
  rw [← h.now]
  have halways : ∀ {s f}, Twin p s f → (fun _ : Sequencer => true) s = (fun _ => true) f :=
    fun _ => rfl
  have hruns := h.runUntil hdelay halways (s.now + (Duration.ofMillis ms).timerMillis)
  exact hruns.wakeAt (runUntil_now_le (Nat.le_add_right _ _))

theorem waitIdle (h : Twin p s f) (hdelay : s.stepTime ≠ 0) : Twin p s.waitIdle f.waitIdle := by
  have hidleBy : (s.sweep p).idleBy = (f.after p).idleBy := congrArg idleBy h.same
  rw [idleBy_after] at hidleBy
  have hidleBy : s.idleBy = f.idleBy := hidleBy
  unfold Sequencer.waitIdle
  rw [hidleBy]
  refine h.runUntil hdelay ?_ f.idleBy
  intro s f h
  have hinFlight : (s.sweep p).inFlight = (f.after p).inFlight := congrArg Sequencer.inFlight h.same
  exact congrArg (fun n => decide (0 < n)) hinFlight

end Twin

end Sequencer

end SpriteStage
