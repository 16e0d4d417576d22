import Mathlib.Logic.Function.Iterate
import SpriteStage.Proofs.Sequencer.Endings
import SpriteStage.Proofs.Sequencer.Idle

/-!
# Waiting until nothing is in flight

`inFlight` is exact: whatever is asked of a sequencer and in whatever order its tasks have their
turns, it is the number of walkers of the present epoch, and zero just when all scripts that were
started since the last reset are over. So a wait neither ends early nor goes on for ever. For the
latter, `EndsBy` bounds the instants at which walkers end: as long as one is in flight, one is due.
-/

namespace SpriteStage.Sequencer

variable {s s' : Sequencer} {last : Nat}

/-! ## What a turn takes from the count -/

/-- A walker in its turn stays a task or ends, and no other one comes or goes. -/
theorem walkersIn_walkerTurn (s : Sequencer) (w : Walker) (due : Option Nat) :
    (∀ epoch, (s.walkerTurn w due).walkersIn epoch = s.walkersIn epoch) ∨
      ∀ epoch, (s.walkerTurn w due).walkersIn epoch =
        s.walkersIn epoch + if w.epoch = epoch then 1 else 0 := by
  have hleave (s' : Sequencer) (epoch : Nat) :
      (s'.leave w.epoch).walkersIn epoch = s'.walkersIn epoch :=
    walkersIn_perm (by rw [tasks_leave])
  cases live : s.isCancelled (.walk w) with
  | true =>
      rw [walkerTurn_of_cancelled live]
      exact .inl (hleave s)
  | false =>
      refine walkerTurn_induction (P := fun s' _ => ∀ epoch, s'.walkersIn epoch = s.walkersIn epoch)
        (Q := fun s' => (∀ epoch, s'.walkersIn epoch = s.walkersIn epoch) ∨
          ∀ epoch, s'.walkersIn epoch = s.walkersIn epoch + if w.epoch = epoch then 1 else 0)
        ?_ ?_ ?_ ?_ live (fun _ => rfl) ?_ ?_
      · intro s' a _ _ h epoch
        rw [walkersIn_dispatch]
        exact h epoch
      · intro s' h
        exact .inl fun epoch => (hleave s' epoch).trans (h epoch)
      · intro s' a rest _ h
        right
        intro epoch
        rw [walkersIn_add (tasks_sleep_perm s' _ _), h epoch]
        simp [Work.isOf]
      · intro s' a rest _ h
        right
        intro epoch
        rw [walkersIn_add (tasks_yield_perm s' _), h epoch]
        simp [Work.isOf]
      · intro a _ _ _ _ _ epoch
        exact walkersIn_dispatch s w.run w.script a
      · intro d _ _
        right
        intro epoch
        rw [walkersIn_add (tasks_sleep_perm s (.walk w) d)]
        simp [Work.isOf]

/-- A turn leaves the walkers of each epoch as many as they were, or ends the walker whose turn it
is. -/
theorem walkersIn_turnAt (s : Sequencer) (place : Nat) (dueFirst : Bool) :
    (∀ epoch, (s.turnAt place dueFirst).walkersIn epoch = s.walkersIn epoch) ∨
      ∃ w due, s.ready[place]? = some ⟨.walk w, due⟩ ∧
        ∀ epoch, s.walkersIn epoch =
          (s.turnAt place dueFirst).walkersIn epoch + if w.epoch = epoch then 1 else 0 := by
  have hwithout {t : Ready} (ht : s.ready[place]? = some t) (epoch : Nat) :
      s.walkersIn epoch = (s.without place).walkersIn epoch + if t.work.isOf epoch then 1 else 0 :=
    walkersIn_add (tasks_without_perm ht)
  refine turnAt_induction (Q := fun s' => (∀ epoch, s'.walkersIn epoch = s.walkersIn epoch) ∨
    ∃ w due, s.ready[place]? = some ⟨.walk w, due⟩ ∧ ∀ epoch, s.walkersIn epoch =
      s'.walkersIn epoch + if w.epoch = epoch then 1 else 0) ?_ ?_ ?_ ?_ ?_
  · intro _
    exact .inl fun _ => rfl
  · intro w due ht
    have hcount (epoch : Nat) : s.walkersIn epoch =
        (s.without place).walkersIn epoch + if w.epoch = epoch then 1 else 0 := by
      rw [hwithout ht epoch]
      simp [Work.isOf]
    rcases walkersIn_walkerTurn (s.without place) w due with hended | hstayed
    · refine .inr ⟨w, due, ht, fun epoch => ?_⟩
      rw [hended epoch]
      exact hcount epoch
    · refine .inl fun epoch => ?_
      rw [hstayed epoch]
      exact (hcount epoch).symm
  · intro c due ht
    exact .inl fun epoch => (hwithout ht epoch).symm
  · intro c due ht
    exact .inl fun epoch => (hwithout ht epoch).symm
  · intro c due d ht _ _
    refine .inl fun epoch => ?_
    rw [walkersIn_add (tasks_sleep_perm (s.without place) (.clear c) d)]
    exact (hwithout ht epoch).symm

/-! ## Walkers are due within a step delay -/

theorem mem_tasks_startScripts {run : ActiveRun} {epoch place : Nat} {scripts : List Script}
    {t : Ready} (ht : t ∈ (s.startScripts run epoch scripts place).tasks) :
    t ∈ s.tasks ∨ t.due = none := by
  induction scripts generalizing s place with
  | nil => exact .inl ht
  | cons script scripts ih =>
      rw [startScripts_cons] at ht
      rcases ih ht with ht | hdue
      · have hdispatch (ht : t ∈ (s.dispatch run.id place script.head).tasks) :
            t ∈ s.tasks ∨ t.due = none := by
          rcases List.mem_append.mp ((s.tasks_dispatch_perm _ _ _).mem_iff.mp ht) with ht | ht
          · obtain ⟨c, rfl, -, -⟩ := mem_clearsOf ht
            exact .inr rfl
          · exact .inl ht
        unfold startScript at ht
        dsimp only at ht
        split at ht
        · exact hdispatch ht
        · rcases List.mem_cons.mp ((tasks_spawn_perm _ _).mem_iff.mp ht) with rfl | ht
          · exact .inr rfl
          · rw [tasks_enter] at ht
            exact hdispatch ht
      · exact .inr hdue

/-- The tasks that a call adds had no turn yet. -/
theorem mem_tasks_call {c : Call} {t : Ready} (ht : t ∈ (s.call c).2.tasks) :
    t ∈ s.tasks ∨ t.due = none := by
  rcases call_cases s c with ⟨event, heq⟩ | heq | heq | ⟨_, _, _, heq⟩ <;> rw [heq] at ht
  · rcases start_cases s event with ⟨-, heq⟩ | ⟨-, heq⟩ <;> rw [heq] at ht
    · exact .inl ht
    · exact (mem_tasks_startScripts ht).imp_left (tasks_openRun_perm s event).mem_iff.mp
  · have htasks : s.undo.2.tasks.Perm s.tasks := by
      rcases undo_cases s with ⟨-, heq⟩ | ⟨_, _, -, heq⟩ <;> rw [heq] <;>
        exact tasks_wakeCancelled_perm _
    exact .inl (htasks.mem_iff.mp ht)
  · exact .inl (s.tasks_reset_perm.mem_iff.mp ht)
  · exact .inl ht

/-- No walker sleeps for longer than a step delay. -/
theorem Reachable.due_le (h : s.Reachable) {t : Ready} (ht : t ∈ s.tasks) {w : Walker}
    (hw : t.work = .walk w) {d : Nat} (hd : t.due = some d) : d ≤ s.now + s.stepTime := by
  induction h generalizing t w d with
  | built s => cases ht
  | @move s m hs ih =>
      rw [move_stepTime]
      have hnow := now_le_move s m
      have hold {d : Nat} (h : d ≤ s.now + s.stepTime) : d ≤ (s.move m).now + s.stepTime := by
        omega
      cases m with
      | call c =>
          rcases mem_tasks_call ht with ht | hnone
          · exact hold (ih ht hw hd)
          · rw [hnone] at hd
            cases hd
      | turn place dueFirst =>
          rcases leaves_turnAt ht with ht | ⟨u, -, hleaves⟩
          · exact hold (ih ht hw hd)
          · cases hleaves with
            | clear u c _ => cases hw
            | walker w _ _ _ hdelay => exact hold (Nat.le_of_eq (hdelay d hd))
      | pass ms => exact hold (ih ((tasks_wakeAt_perm s _).mem_iff.mp ht) hw hd)
      | rejoin => exact hold (ih (s.tasks_rejoin_perm.mem_iff.mp ht) hw hd)

/-! ## Walkers end in time -/

theorem woken_due (t : Sleeper) : t.woken.due = some t.due := rfl

/-- No walker is late, and those that go on step by step have ended by an instant. -/
def EndsBy (s : Sequencer) (last : Nat) : Prop :=
  ∀ t ∈ s.tasks, ∀ w, t.work = .walk w → (∀ d, t.due = some d → s.now ≤ d) ∧
    t.due.getD (s.now + s.stepTime) + s.stepTime * (w.rest.length - 1) ≤ last

namespace EndsBy

theorem turnAt (h : s.EndsBy last) (place : Nat) (dueFirst : Bool) :
    (s.turnAt place dueFirst).EndsBy last := by
  intro t ht w hw
  have hframe := turnAt_frame s place dueFirst
  rw [now_of_frame hframe, stepTime_of_frame hframe]
  rcases leaves_turnAt ht with ht | ⟨u, hu, hleaves⟩
  · exact h t ht w hw
  · cases hleaves with
    | clear u c _ => cases hw
    | @walker w' rest due due' hmore hshorter hwoken hdelay =>
        obtain rfl := Work.walk.inj hw
        obtain ⟨hlate, hends⟩ := h _ ((tasks_without_perm hu).mem_iff.mpr List.mem_cons_self) w' rfl
        refine ⟨fun d hd => hdelay d hd ▸ Nat.le_add_right _ _, ?_⟩
        have hnext : due'.getD (s.now + s.stepTime) = s.now + s.stepTime := by
          cases due' with
          | none => rw [Option.getD_none]
          | some d => rw [Option.getD_some, hdelay d rfl]
        dsimp only at hends ⊢
        rw [hnext]
        cases due with
        | none =>
            have hmul := Nat.mul_le_mul_left s.stepTime (Nat.sub_le_sub_right hshorter 1)
            rw [Option.getD_none] at hends
            exact Nat.le_trans (Nat.add_le_add_left hmul _) hends
        | some d =>
            -- the step that the walker slept for was one of those it had left
            have hpos := List.length_pos_of_ne_nil hmore
            have hlt := (hwoken d rfl).2
            have hmul := Nat.mul_le_mul_left s.stepTime
              (show rest.length - 1 + 1 ≤ w'.rest.length - 1 by omega)
            have hnow := hlate d rfl
            rw [Nat.mul_add, Nat.mul_one] at hmul
            rw [Option.getD_some] at hends
            omega

theorem pass (h : s.EndsBy last) {ms : Nat} (hms : s.IsInTurn (.pass ms)) :
    (s.move (.pass ms)).EndsBy last := by
  obtain ⟨hready, hyielded, hdue⟩ := hms
  intro t ht w hw
  rw [move_stepTime]
  have ht := (tasks_wakeAt_perm s _).mem_iff.mp ht
  obtain ⟨-, hends⟩ := h t ht w hw
  -- all tasks sleep, so what they wait for does not depend on the time
  rw [tasks_eq_asleep hready hyielded] at ht
  obtain ⟨u, hu, rfl⟩ := List.mem_map.mp ht
  rw [woken_due, Option.getD_some] at hends ⊢
  refine ⟨?_, hends⟩
  rintro _ ⟨⟩
  exact hdue u hu

theorem rejoin (h : s.EndsBy last) : (s.move .rejoin).EndsBy last := by
  intro t ht w hw
  rw [move_stepTime]
  exact h t (s.tasks_rejoin_perm.mem_iff.mp ht) w hw

theorem goes (h : s.EndsBy last) (hgoes : Goes s s') : s'.EndsBy last := by
  obtain ⟨ms, hms, hcalls, rfl⟩ := hgoes
  induction ms generalizing s with
  | nil => exact h
  | cons m ms ih =>
      refine ih ?_ hms.2 fun n hn => hcalls n (List.mem_cons_of_mem m hn)
      cases m with
      | call c => cases hcalls (.call c) List.mem_cons_self
      | turn place dueFirst => exact h.turnAt place dueFirst
      | rejoin => exact h.rejoin
      | pass ms => exact h.pass hms.1

theorem idleBy (hs : s.Reachable) (hready : s.ready = []) (hyielded : s.yielded = []) :
    s.EndsBy s.idleBy := by
  intro t ht w hw
  have hrest := List.length_pos_of_ne_nil (hs.wellFormed.rest t ht w hw)
  have hsoon {d : Nat} (hd : t.due = some d) := hs.due_le ht hw hd
  rw [tasks_eq_asleep hready hyielded] at ht
  obtain ⟨u, hu, rfl⟩ := List.mem_map.mp ht
  have hby := le_idleBy hu hw
  have hle : u.due ≤ s.now + s.stepTime := hsoon rfl
  refine ⟨?_, ?_⟩
  · rintro _ ⟨⟩
    exact Nat.le_of_lt (hs.wellFormed.due u hu)
  · rw [show w.rest.length = w.rest.length - 1 + 1 by omega, Nat.mul_add, Nat.mul_one] at hby
    rw [woken_due, Option.getD_some]
    omega

end EndsBy

/-! ## The wait -/

/-- While no task is ready, a walker in flight sleeps. -/
theorem exists_asleep (hs : s.Reachable) (hready : s.ready = []) (hyielded : s.yielded = [])
    (hflight : 0 < s.inFlight) : ∃ t ∈ s.asleep, ∃ w, t.work = .walk w := by
  rw [hs.counted, walkersIn, List.countP_pos_iff] at hflight
  obtain ⟨t, ht, hof⟩ := hflight
  rw [tasks_eq_asleep hready hyielded] at ht
  obtain ⟨u, hu, rfl⟩ := List.mem_map.mp ht
  refine ⟨u, hu, ?_⟩
  cases hw : u.work with
  | walk w => exact ⟨w, rfl⟩
  | clear c => simp [Sleeper.woken, hw, Work.isOf] at hof

theorem Goes.reachable (h : Goes s s') (hs : s.Reachable) : s'.Reachable := by
  obtain ⟨ms, -, -, rfl⟩ := h
  exact hs.moves ms

/-- As long as a walker is in flight one is due by the last instant, so time goes on. -/
theorem runUntil_inFlight (hs : s.Reachable) (hready : s.ready = []) (hyielded : s.yielded = [])
    (h : s.EndsBy last) : (runUntil (fun s => 0 < s.inFlight) last s).inFlight = 0 := by
  fun_induction runUntil (fun s => decide (0 < s.inFlight)) last s with
  | case1 s hstop => simpa using hstop
  | case2 s hgo hnone =>
      have hflight : 0 < s.inFlight := by simpa [Nat.pos_iff_ne_zero] using hgo
      obtain ⟨t, ht, -⟩ := exists_asleep hs hready hyielded hflight
      have hempty : s.asleep.map Sleeper.due = [] := List.min?_eq_none_iff.mp hnone
      rw [List.map_eq_nil_iff] at hempty
      rw [hempty] at ht
      cases ht
  | case3 s hgo due hdue hcond ih =>
      have hgoes := (wakeAt_goes hready hyielded hdue hcond.1).trans (settle_goes (s.wakeAt due))
      exact ih (hgoes.reachable hs) (settle_ready _) (settle_yielded _) (h.goes hgoes)
  | case4 s hgo due hdue hcond =>
      have hflight : 0 < s.inFlight := by simpa [Nat.pos_iff_ne_zero] using hgo
      obtain ⟨t, ht, w, hw⟩ := exists_asleep hs hready hyielded hflight
      obtain ⟨⟨first, hmem, rfl⟩, hfirst⟩ := nextDue?_eq_some hdue
      have hends := (h t.woken (mem_tasks_of_asleep ht) w hw).2
      rw [woken_due, Option.getD_some] at hends
      have hbefore := hfirst t ht
      exact absurd ⟨hs.wellFormed.due first hmem, by omega⟩ hcond

/-- The next instant at which a task is due, when all tasks had their turns. -/
def nextInstant (s : Sequencer) : Sequencer :=
  match s.nextDue? with
  | none => s
  | some due => (s.wakeAt due).settle

/-- Letting time pass stops at the first instant at which it is not to go on, or before. -/
theorem runUntil_iterate (goOn : Sequencer → Bool) (last : Nat) (s : Sequencer) :
    ∃ n, runUntil goOn last s = nextInstant^[n] s ∧ ∀ k < n, goOn (nextInstant^[k] s) = true := by
  have hbefore (s : Sequencer) : ∀ k < 0, goOn (nextInstant^[k] s) = true :=
    fun k hk => absurd hk k.not_lt_zero
  fun_induction runUntil goOn last s with
  | case1 s _ => exact ⟨0, rfl, hbefore s⟩
  | case2 s _ _ => exact ⟨0, rfl, hbefore s⟩
  | case3 s hgo due hdue _ ih =>
      obtain ⟨n, heq, hgone⟩ := ih
      have hnext : s.nextInstant = (s.wakeAt due).settle := by
        unfold nextInstant
        rw [hdue]
      refine ⟨n + 1, ?_, ?_⟩
      · rw [Function.iterate_succ_apply, hnext]
        exact heq
      · intro k hk
        cases k with
        | zero => simpa using hgo
        | succ k =>
            rw [Function.iterate_succ_apply, hnext]
            exact hgone k (Nat.lt_of_succ_lt_succ hk)
  | case4 s _ due _ _ => exact ⟨0, rfl, hbefore s⟩

/-! ## The count -/

/-- What `inFlight` tells after a schedule. -/
structure CountsExactly (s₀ : Sequencer) (ms : List Move) : Prop where
  /-- The walkers of the present epoch are counted, and no others. -/
  exact : (s₀.rebuilt.moves ms).inFlight =
    (s₀.rebuilt.moves ms).walkersIn (s₀.rebuilt.moves ms).runs.epoch
  /-- A walker that ends in its turn is taken from the count if it is of the present epoch, and then
  there is one to take, and nothing else changes the count in a turn. -/
  turn : ∀ place dueFirst,
    ((s₀.rebuilt.moves ms).turnAt place dueFirst).inFlight = (s₀.rebuilt.moves ms).inFlight ∨
      ∃ w due, (s₀.rebuilt.moves ms).ready[place]? = some ⟨.walk w, due⟩ ∧
        (∀ epoch, (s₀.rebuilt.moves ms).walkersIn epoch =
          ((s₀.rebuilt.moves ms).turnAt place dueFirst).walkersIn epoch +
            if w.epoch = epoch then 1 else 0) ∧
        (s₀.rebuilt.moves ms).inFlight =
          ((s₀.rebuilt.moves ms).turnAt place dueFirst).inFlight +
            if w.epoch = (s₀.rebuilt.moves ms).runs.epoch then 1 else 0
  /-- None is in flight just when all scripts that were started since the last reset are over. -/
  idle : (s₀.rebuilt.moves ms).inFlight = 0 ↔ ∀ run place script, Begun s₀ ms run place script →
    (s₀.rebuilt.moves ms).Over run place script
  /-- A wait ends at the first instant at which none is in flight, and there is such an instant. -/
  waits : (s₀.rebuilt.moves ms).ready = [] → (s₀.rebuilt.moves ms).yielded = [] →
    (s₀.rebuilt.moves ms).waitIdle.inFlight = 0 ∧
      ∃ n, (s₀.rebuilt.moves ms).waitIdle = nextInstant^[n] (s₀.rebuilt.moves ms) ∧
        ∀ k < n, 0 < (nextInstant^[k] (s₀.rebuilt.moves ms)).inFlight

theorem counts_exactly (s₀ : Sequencer) (ms : List Move) : CountsExactly s₀ ms := by
  have hs : (s₀.rebuilt.moves ms).Reachable := (Reachable.built s₀).moves ms
  refine ⟨hs.counted, ?_, inFlight_eq_zero_iff s₀ ms, ?_⟩
  · intro place dueFirst
    have hturn : ((s₀.rebuilt.moves ms).turnAt place dueFirst).Counted :=
      hs.counted.turnAt place dueFirst
    have hepoch : ((s₀.rebuilt.moves ms).turnAt place dueFirst).runs.epoch =
        (s₀.rebuilt.moves ms).runs.epoch :=
      congrArg Runs.epoch (runs_of_frame (turnAt_frame _ place dueFirst))
    rw [hs.counted, hturn, hepoch]
    rcases walkersIn_turnAt (s₀.rebuilt.moves ms) place dueFirst with hsame | ⟨w, due, ht, hless⟩
    · exact .inl (hsame _)
    · exact .inr ⟨w, due, ht, hless, hless _⟩
  · intro hready hyielded
    obtain ⟨n, heq, hbefore⟩ := runUntil_iterate (fun s => decide (0 < s.inFlight))
      (s₀.rebuilt.moves ms).idleBy (s₀.rebuilt.moves ms)
    refine ⟨runUntil_inFlight hs hready hyielded (.idleBy hs hready hyielded), n, heq, ?_⟩
    intro k hk
    exact of_decide_eq_true (hbefore k hk)

/-- After a reset the program runs again, and the walker from before had no turn since. -/
def leftBehind : List Move := [.call .run, .call .reset, .call .run]

/-- That walker ends without being taken from the count. -/
theorem counts_exactly_leftBehind :
    ((threeActions 5).rebuilt.moves leftBehind).tasks.length = 2 ∧
      ((threeActions 5).rebuilt.moves leftBehind).inFlight = 1 ∧
      (((threeActions 5).rebuilt.moves leftBehind).turnAt 0 false).tasks.length = 1 ∧
      (((threeActions 5).rebuilt.moves leftBehind).turnAt 0 false).inFlight = 1 ∧
      CountsExactly (threeActions 5) leftBehind :=
  ⟨by decide +kernel, by decide +kernel, by decide +kernel, by decide +kernel, counts_exactly _ _⟩

end SpriteStage.Sequencer
