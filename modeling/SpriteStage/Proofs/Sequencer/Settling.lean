import SpriteStage.Proofs.Sequencer.WellFormed

/-!
# Settling keeps in turn

To give turns until no task is ready, and to go on to the next instant at which one is due, takes
nothing but moves that keep to the queue and to the clock, and no call is among them. So what holds
along every schedule in turn holds from one instant to the next.
-/

namespace SpriteStage

def Move.isCall : Move → Bool
  | .call _ => true
  | _ => false

namespace Sequencer

/-- From one state to another by turns and time alone. -/
def Goes (s s' : Sequencer) : Prop :=
  ∃ ms, s.InTurn ms ∧ (∀ m ∈ ms, m.isCall = false) ∧ s' = s.moves ms

namespace Goes

variable {s s' s'' : Sequencer}

theorem refl (s : Sequencer) : Goes s s := ⟨[], trivial, by simp, rfl⟩

theorem one {m : Move} (hturn : s.IsInTurn m) (hm : m.isCall = false) : Goes s (s.move m) := by
  refine ⟨[m], ⟨hturn, trivial⟩, ?_, rfl⟩
  intro n hn
  rw [List.mem_singleton.mp hn]
  exact hm

theorem trans (h : Goes s s') (h' : Goes s' s'') : Goes s s'' := by
  obtain ⟨ms, hturn, hcalls, rfl⟩ := h
  obtain ⟨ns, hturn', hcalls', rfl⟩ := h'
  refine ⟨ms ++ ns, inTurn_append.mpr ⟨hturn, hturn'⟩, ?_, (moves_append s ms ns).symm⟩
  intro m hm
  rcases List.mem_append.mp hm with hm | hm
  · exact hcalls m hm
  · exact hcalls' m hm

/-- No run starts or ends by turns and time. -/
theorem runs_eq (h : Goes s s') : s'.runs = s.runs := by
  obtain ⟨ms, -, hcalls, rfl⟩ := h
  induction ms generalizing s with
  | nil => rfl
  | cons m ms ih =>
      have hmove : (s.move m).runs = s.runs := by
        cases m with
        | call c =>
            have hcall := hcalls (.call c) List.mem_cons_self
            cases hcall
        | turn place dueFirst => exact runs_of_frame (turnAt_frame s place dueFirst)
        | pass ms => rfl
        | rejoin => rfl
      rw [moves_cons, ih fun n hn => hcalls n (List.mem_cons_of_mem m hn), hmove]

theorem stepTime_eq (h : Goes s s') : s'.stepTime = s.stepTime := by
  obtain ⟨ms, -, -, rfl⟩ := h
  exact moves_stepTime s ms

end Goes

theorem nextRound_goes (left : Nat) (s : Sequencer) : Goes s (s.nextRound left).1 := by
  unfold nextRound
  split
  · exact Goes.one (m := .rejoin) trivial rfl
  · exact Goes.refl s

theorem settleFrom_goes (left : Nat) (s : Sequencer) : Goes s (s.settleFrom left) := by
  fun_induction settleFrom left s with
  | case1 left s _ => exact nextRound_goes left s
  | case2 left s t rest hready ih =>
      have hturn : { (s.nextRound left).1 with ready := rest }.turn false t =
          (s.nextRound left).1.move (.turn 0 false) := (turnAt_zero hready false).symm
      refine (nextRound_goes left s).trans (Goes.trans ?_ ih)
      rw [hturn]
      exact Goes.one (m := .turn 0 false) rfl rfl

theorem settle_goes (s : Sequencer) : Goes s s.settle := settleFrom_goes _ s

theorem nextDue?_eq_some {s : Sequencer} {due : Nat} (h : s.nextDue? = some due) :
    (∃ t ∈ s.asleep, t.due = due) ∧ ∀ t ∈ s.asleep, due ≤ t.due := by
  obtain ⟨hmem, hle⟩ := List.min?_eq_some_iff.mp h
  refine ⟨by simpa using hmem, ?_⟩
  intro t ht
  exact hle _ (List.mem_map_of_mem ht)

/-- The clock goes to the next instant at which a sleeper is due. -/
theorem wakeAt_goes {s : Sequencer} {due : Nat} (hready : s.ready = []) (hyielded : s.yielded = [])
    (hdue : s.nextDue? = some due) (hlt : s.now < due) : Goes s (s.wakeAt due) := by
  have hpass : s.now + (due - s.now) = due := by omega
  have hturn : s.IsInTurn (.pass (due - s.now)) := by
    refine ⟨hready, hyielded, ?_⟩
    rw [hpass]
    exact (nextDue?_eq_some hdue).2
  have hgoes := Goes.one hturn rfl
  rwa [move_pass, hpass] at hgoes

theorem wakeAt_stepTime (s : Sequencer) (time : Nat) : (s.wakeAt time).stepTime = s.stepTime := by
  unfold stepTime sleepTime
  rw [wakeAt_eq]

theorem runUntil_stepTime (goOn : Sequencer → Bool) (last : Nat) (s : Sequencer) :
    (runUntil goOn last s).stepTime = s.stepTime := by
  fun_induction runUntil goOn last s with
  | case1 s _ => rfl
  | case2 s _ _ => rfl
  | case3 s _ due _ _ ih => rw [ih, (settle_goes _).stepTime_eq, wakeAt_stepTime]
  | case4 s _ due _ _ => rfl

theorem wait_stepTime (s : Sequencer) (ms : Nat) : (s.wait ms).stepTime = s.stepTime := by
  unfold wait
  dsimp only
  rw [wakeAt_stepTime, runUntil_stepTime]

theorem waitIdle_stepTime (s : Sequencer) : s.waitIdle.stepTime = s.stepTime :=
  runUntil_stepTime _ _ s

/-- Time does not pass beyond the last instant. -/
theorem runUntil_now_le {goOn : Sequencer → Bool} {last : Nat} {s : Sequencer} (h : s.now ≤ last) :
    (runUntil goOn last s).now ≤ last := by
  fun_induction runUntil goOn last s with
  | case1 s _ => exact h
  | case2 s _ _ => exact h
  | case3 s _ due _ hcond ih =>
      refine ih ?_
      rw [settle_now, wakeAt_now]
      exact hcond.2
  | case4 s _ due _ _ => exact h

/-! ## Rounds

With a delay no walker yields. So a round that ends is as good as one that goes on.
-/

theorem startScripts_yielded (s : Sequencer) (run : ActiveRun) (epoch : Nat)
    (scripts : List Script) (place : Nat) :
    (s.startScripts run epoch scripts place).yielded = s.yielded := by
  induction scripts generalizing s place with
  | nil => rfl
  | cons script scripts ih =>
      rw [startScripts_cons, ih]
      unfold startScript spawn enter
      dsimp only
      split
      · rfl
      · split <;> rfl

theorem move_yielded {s : Sequencer} (hdelay : s.stepTime ≠ 0) (h : s.yielded = []) (m : Move) :
    (s.move m).yielded = [] := by
  cases m with
  | call c =>
      rw [move_call]
      rcases call_cases s c with ⟨event, heq⟩ | heq | heq | ⟨_, _, _, heq⟩ <;> rw [heq]
      · rcases start_cases s event with ⟨-, heq⟩ | ⟨-, heq⟩ <;> rw [heq]
        · exact h
        · rw [startScripts_yielded]
          exact h
      · rcases undo_cases s with ⟨-, heq⟩ | ⟨_, _, -, heq⟩ <;> rw [heq] <;> exact h
      · exact h
      · exact h
  | turn place dueFirst => rw [move_turn, turnAt_yielded hdelay, h]
  | pass ms => exact h
  | rejoin => rfl

theorem Reachable.yielded {s : Sequencer} (h : s.Reachable) (hdelay : s.stepTime ≠ 0) :
    s.yielded = [] := by
  induction h with
  | built s => rfl
  | move m hs ih =>
      rw [move_stepTime] at hdelay
      exact move_yielded hdelay (ih hdelay) m

theorem nextRound_of_yielded {s : Sequencer} (h : s.yielded = []) (left : Nat) :
    (s.nextRound left).1 = s := by
  unfold nextRound
  split
  · cases s
    cases h
    exact congrArg (fun ready => Sequencer.mk _ _ _ _ _ _ _ _ _ _ ready _ _ _ _) (List.append_nil _)
  · rfl

end Sequencer

end SpriteStage
