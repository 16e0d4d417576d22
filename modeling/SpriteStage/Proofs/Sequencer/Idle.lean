import SpriteStage.Proofs.Sequencer.InFlight
import SpriteStage.Proofs.Sequencer.RoundRobin
import SpriteStage.Proofs.Sequencer.Settling

/-!
# When a run is over

A run that was started while no walker was in flight has walkers in flight as long as one of its
scripts has a round to come. So waiting until none is in flight ends with the last round of the longest
script.
-/

namespace SpriteStage

/-- How many actions the longest script has after its head. -/
def longestRest (scripts : List Script) : Nat :=
  (scripts.map fun script => script.rest.length).foldr max 0

theorem longestRest_le_iff {scripts : List Script} {n : Nat} :
    longestRest scripts ≤ n ↔ ∀ script ∈ scripts, script.rest.length ≤ n := by
  unfold longestRest
  induction scripts with
  | nil => simp
  | cons script scripts ih =>
      rw [List.map_cons, List.foldr_cons, Nat.max_le, ih, List.forall_mem_cons]

theorem ofActions_eq_none_iff {place : Nat} {actions : List Action} :
    Front.ofActions place actions = none ↔ actions = [] := by
  cases actions <;> simp [Front.ofActions]

/-- A round is left for some script until the longest one is through. -/
theorem frontsAt_eq_nil_iff {scripts : List Script} {k : Nat} :
    frontsAt scripts (k + 1) = [] ↔ longestRest scripts ≤ k := by
  unfold frontsAt
  rw [List.filterMap_eq_nil_iff, longestRest_le_iff]
  have hdrop (script : Script) : script.actions.drop (k + 1) = [] ↔ script.rest.length ≤ k := by
    rw [List.drop_eq_nil_iff]
    exact Nat.succ_le_succ_iff
  constructor
  · intro h script hscript
    obtain ⟨i, hi, rfl⟩ := List.getElem_of_mem hscript
    have hmem : (scripts[i], i) ∈ scripts.zipIdx := List.mk_mem_zipIdx_iff_getElem?.mpr (by simp [hi])
    exact (hdrop _).mp (ofActions_eq_none_iff.mp (h _ hmem))
  · rintro h ⟨script, i⟩ hmem
    have hscript := List.fst_mem_of_mem_zipIdx hmem
    exact ofActions_eq_none_iff.mpr ((hdrop script).mpr (h script hscript))

theorem exists_longest {scripts : List Script} (h : 0 < longestRest scripts) :
    ∃ script ∈ scripts, script.rest.length = longestRest scripts := by
  by_contra hnone
  have hle := longestRest_le_iff.mp (Nat.le_refl (longestRest scripts))
  have hless : longestRest scripts ≤ longestRest scripts - 1 := by
    rw [longestRest_le_iff]
    intro script hscript
    have hne : script.rest.length ≠ longestRest scripts := by
      intro heq
      exact hnone ⟨script, hscript, heq⟩
    have := hle script hscript
    omega
  omega

/-- The longest script has its last action in the last round. -/
theorem exists_front_of_longest {scripts : List Script} {k : Nat} (h : k < longestRest scripts) :
    ∃ f ∈ frontsAt scripts (k + 1), k + f.line.2.length = longestRest scripts := by
  obtain ⟨script, hscript, hlength⟩ := exists_longest (Nat.lt_of_le_of_lt (Nat.zero_le k) h)
  obtain ⟨i, hi, rfl⟩ := List.getElem_of_mem hscript
  have hmem : (scripts[i], i) ∈ scripts.zipIdx := List.mk_mem_zipIdx_iff_getElem?.mpr (by simp [hi])
  have hleft : (scripts[i].actions.drop (k + 1)).length = longestRest scripts - k := by
    rw [List.length_drop, Script.actions, List.length_cons, hlength]
    omega
  cases hdrop : scripts[i].actions.drop (k + 1) with
  | nil =>
      rw [hdrop, List.length_nil] at hleft
      omega
  | cons a rest =>
      refine ⟨⟨i, a, rest⟩, List.mem_filterMap.mpr ⟨_, hmem, ?_⟩, ?_⟩
      · rw [hdrop]
        rfl
      · rw [hdrop] at hleft
        show k + (a :: rest).length = _
        omega

namespace Sequencer

theorem le_foldl_of_mem {f : Nat → Sleeper → Nat} (hf : ∀ n t, n ≤ f n t) {l : List Sleeper}
    {t : Sleeper} (ht : t ∈ l) {m : Nat} (hm : ∀ n, m ≤ f n t) (n : Nat) : m ≤ l.foldl f n := by
  have hgrows (l : List Sleeper) (n : Nat) : n ≤ l.foldl f n := by
    induction l generalizing n with
    | nil => exact Nat.le_refl n
    | cons u l ih => exact Nat.le_trans (hf n u) (ih (f n u))
  induction l generalizing n with
  | nil => cases ht
  | cons u l ih =>
      rw [List.foldl_cons]
      rcases List.mem_cons.mp ht with rfl | ht
      · exact Nat.le_trans (hm n) (hgrows l _)
      · exact ih ht _

/-- The instant that bounds a wait leaves time for all that a sleeping walker has left. -/
theorem le_idleBy {s : Sequencer} {t : Sleeper} (ht : t ∈ s.asleep) {w : Walker}
    (hw : t.work = .walk w) : s.now + s.stepTime * w.rest.length ≤ s.idleBy := by
  unfold idleBy
  refine Nat.add_le_add_left (Nat.mul_le_mul_left _ ?_) _
  refine le_foldl_of_mem ?_ ht ?_ 0
  · intro n u
    cases u.work with
    | walk w => exact Nat.le_max_left _ _
    | clear c => exact Nat.le_refl n
  · intro n
    rw [hw]
    exact Nat.le_max_right _ _

/-- The run goes on, keeps to the rounds, and has the only walkers in flight. -/
structure Going (s : Sequencer) (run : Stamp) (scripts : List Script) (start : Nat) : Prop where
  wellFormed : s.WellFormed
  current : s.current = some run
  delay : s.stepTime ≠ 0
  onSchedule : s.OnSchedule run scripts start
  alone : s.Alone run
  counted : s.Counted

namespace Going

variable {s s' : Sequencer} {run : Stamp} {scripts : List Script} {start : Nat}

theorem moves (h : s.Going run scripts start) {ms : List Move} (hms : s.InTurn ms)
    (hcurrent : (s.moves ms).current = some run) : (s.moves ms).Going run scripts start := by
  have hle := Nat.le_of_eq (h.wellFormed.current_eq h.current)
  have hdelay : (s.moves ms).stepTime ≠ 0 := by
    rw [moves_stepTime]
    exact h.delay
  exact ⟨h.wellFormed.moves ms, hcurrent, hdelay,
    h.onSchedule.moves h.wellFormed hle h.delay hms hcurrent,
    h.alone.moves h.wellFormed hle hcurrent, h.counted.moves h.wellFormed ms⟩

theorem goes (h : s.Going run scripts start) (hgoes : Goes s s') : s'.Going run scripts start := by
  have hruns := hgoes.runs_eq
  obtain ⟨ms, hms, -, rfl⟩ := hgoes
  refine h.moves hms ?_
  rw [← h.current]
  exact congrArg Runs.current hruns

/-- While no task is ready, a walker is in flight just when one of the run sleeps. -/
theorem inFlight_pos_iff (h : s.Going run scripts start) (hready : s.ready = [])
    (hyielded : s.yielded = []) : 0 < s.inFlight ↔ (s.view run).asleep ≠ [] := by
  have htasks := tasks_eq_asleep hready hyielded
  have hcount : s.inFlight = s.tasks.countP fun t => t.work.isOf s.runs.epoch := h.counted
  rw [hcount, List.countP_pos_iff]
  constructor
  · -- what is counted is a walker of the epoch, and those are all of the run
    rintro ⟨t, ht, hof⟩
    obtain ⟨sleeper, hsleeper, rfl⟩ := List.mem_map.mp (htasks ▸ ht)
    have hline : (sleeper.line? run).isSome := by
      cases hw : sleeper.work with
      | clear c => simp [Sleeper.woken, hw, Work.isOf] at hof
      | walk w =>
          have hepoch : w.epoch = s.runs.epoch := by
            simpa [Sleeper.woken, hw, Work.isOf] using hof
          have hrun := h.alone _ ht w hw hepoch
          simp [Sleeper.line?, hw, Work.line?, hrun]
    obtain ⟨line, hline⟩ := Option.isSome_iff_exists.mp hline
    exact List.ne_nil_of_mem (List.mem_filterMap.mpr ⟨sleeper, hsleeper, hline⟩)
  · -- a walker of the run is live as long as the run is current, and so is of the epoch
    intro hasleep
    obtain ⟨line, hline⟩ := List.exists_mem_of_ne_nil _ hasleep
    obtain ⟨sleeper, hsleeper, hline⟩ := List.mem_filterMap.mp hline
    refine ⟨sleeper.woken, mem_tasks_of_asleep hsleeper, ?_⟩
    cases hw : sleeper.work with
    | clear c => simp [Sleeper.line?, hw, Work.line?] at hline
    | walk w =>
        have hrun : w.run = run := by
          by_contra hne
          simp [Sleeper.line?, hw, Work.line?, hne] at hline
        have hmem := mem_tasks_of_asleep hsleeper
        have hwoken : sleeper.woken = ⟨.walk w, some sleeper.due⟩ := by rw [← hw]; rfl
        rw [hwoken] at hmem ⊢
        have hfits : w.Fits s.runs := h.wellFormed.fits _ hmem
        have hepoch := (hfits.live (h.wellFormed.live h.current hrun hmem)).2
        simp [Work.isOf, hepoch]

/-- While no task is ready, a round is to come until the last one, and its walkers sleep. -/
theorem inRound (h : s.Going run scripts start) (hready : s.ready = []) :
    ∃ k before, (s.view run).InRound s.stepTime s.now scripts start k before [] := by
  refine h.onSchedule.inRound ?_
  show s.ready.filterMap _ = []
  rw [hready, List.filterMap_nil]

/-- When none is in flight any more, the last round is over. -/
theorem last_le (h : s.Going run scripts start) (hready : s.ready = []) (hyielded : s.yielded = [])
    (hidle : s.inFlight = 0) : start + longestRest scripts * s.stepTime ≤ s.now := by
  obtain ⟨k, before, hround⟩ := h.inRound hready
  have hnone : (s.view run).asleep = [] := by
    by_contra hasleep
    have := (h.inFlight_pos_iff hready hyielded).mpr hasleep
    omega
  rw [hround.asleep_eq, List.map_eq_nil_iff] at hnone
  have hk := Nat.mul_le_mul_right s.stepTime (frontsAt_eq_nil_iff.mp hnone)
  have := hround.reached
  omega

/-- As long as one is in flight, a sleeper is due by the last round, and `idleBy` is not before
it. -/
theorem due_le (h : s.Going run scripts start) (hready : s.ready = []) (hyielded : s.yielded = [])
    (hflight : 0 < s.inFlight) :
    ∃ t ∈ s.asleep, t.due ≤ start + longestRest scripts * s.stepTime ∧
      start + longestRest scripts * s.stepTime ≤ s.idleBy := by
  obtain ⟨k, before, hround⟩ := h.inRound hready
  have hasleep := (h.inFlight_pos_iff hready hyielded).mp hflight
  rw [hround.asleep_eq, ne_eq, List.map_eq_nil_iff, frontsAt_eq_nil_iff, Nat.not_le] at hasleep
  obtain ⟨f, hf, hlength⟩ := exists_front_of_longest hasleep
  have hline : (f.line, start + (k + 1) * s.stepTime) ∈ (s.view run).asleep := by
    rw [hround.asleep_eq]
    exact List.mem_map_of_mem hf
  obtain ⟨t, ht, hsome⟩ := List.mem_filterMap.mp hline
  obtain ⟨line, hwork, hpair⟩ := Option.map_eq_some_iff.mp hsome
  obtain ⟨rfl, hdue⟩ := Prod.mk.inj hpair
  refine ⟨t, ht, ?_, ?_⟩
  · have hk := Nat.mul_le_mul_right s.stepTime (Nat.succ_le_of_lt hasleep)
    rw [hdue]
    exact Nat.add_le_add_left hk start
  · -- the longest script has as many steps left as there are rounds to come
    obtain ⟨w, hw, hrest⟩ : ∃ w, t.work = .walk w ∧ w.rest.length = f.line.2.length := by
      cases hwork' : t.work with
      | clear c => simp [hwork', Work.line?] at hwork
      | walk w =>
          rw [hwork', Work.line?, Option.ite_none_right_eq_some] at hwork
          exact ⟨w, rfl, congrArg (fun line => line.2.length) (Option.some.inj hwork.2)⟩
    have hby := le_idleBy ht hw
    have hreached := hround.reached
    rw [hrest, Nat.mul_comm] at hby
    rw [← hlength, Nat.add_mul]
    omega

/-- Letting time pass as long as a walker is in flight ends with the last round. -/
theorem runUntil_now (h : s.Going run scripts start) (hready : s.ready = [])
    (hyielded : s.yielded = []) {last : Nat}
    (hlast : 0 < s.inFlight → start + longestRest scripts * s.stepTime ≤ last) :
    (runUntil (fun s => 0 < s.inFlight) last s).now =
      max s.now (start + longestRest scripts * s.stepTime) := by
  fun_induction runUntil (fun s => decide (0 < s.inFlight)) last s with
  | case1 s hstop =>
      have hidle : s.inFlight = 0 := by simpa using hstop
      exact (Nat.max_eq_left (h.last_le hready hyielded hidle)).symm
  | case2 s hgo hnone =>
      -- a walker in flight is a sleeper, so there is an instant to go to
      have hflight : 0 < s.inFlight := by simpa [Nat.pos_iff_ne_zero] using hgo
      obtain ⟨t, ht, -⟩ := h.due_le hready hyielded hflight
      have hempty : s.asleep.map Sleeper.due = [] := List.min?_eq_none_iff.mp hnone
      rw [List.map_eq_nil_iff] at hempty
      rw [hempty] at ht
      cases ht
  | case3 s hgo due hdue hcond ih =>
      have hflight : 0 < s.inFlight := by simpa [Nat.pos_iff_ne_zero] using hgo
      obtain ⟨t, ht, hle, -⟩ := h.due_le hready hyielded hflight
      have hfirst := (nextDue?_eq_some hdue).2 t ht
      have hgoes := (wakeAt_goes hready hyielded hdue hcond.1).trans (settle_goes (s.wakeAt due))
      have htime : (s.wakeAt due).settle.stepTime = s.stepTime := hgoes.stepTime_eq
      rw [ih (h.goes hgoes) (settle_ready _) (settle_yielded _) (by rw [htime]; exact fun _ => hlast hflight),
        htime, settle_now, wakeAt_now]
      omega
  | case4 s hgo due hdue hcond =>
      -- the next instant is not after the last round, which `last` does not cut off
      have hflight : 0 < s.inFlight := by simpa [Nat.pos_iff_ne_zero] using hgo
      obtain ⟨t, ht, hle, -⟩ := h.due_le hready hyielded hflight
      obtain ⟨⟨first, hmem, rfl⟩, hfirst⟩ := nextDue?_eq_some hdue
      have hfuture := h.wellFormed.due first hmem
      have hbefore := hfirst t ht
      have hlast := hlast hflight
      exact absurd ⟨hfuture, by omega⟩ hcond

theorem waitIdle_now (h : s.Going run scripts start) (hready : s.ready = [])
    (hyielded : s.yielded = []) :
    s.waitIdle.now = max s.now (start + longestRest scripts * s.stepTime) := by
  refine h.runUntil_now hready hyielded ?_
  intro hflight
  obtain ⟨t, ht, -, hby⟩ := h.due_le hready hyielded hflight
  exact hby

end Going

end Sequencer

end SpriteStage
