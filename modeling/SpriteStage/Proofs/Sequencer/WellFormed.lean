import SpriteStage.Proofs.Sequencer.Calls

/-!
# Well-formed sequencers

What holds of a sequencer whatever is asked of it and in whatever order its tasks have their turns:
its tasks fit its runs, and no task sleeps that was cancelled or is due. The step lemma is
`WellFormed.move`, with one lemma for each operation; `Reachable.wellFormed` is the run lemma.
-/

namespace SpriteStage.Sequencer

structure WellFormed (s : Sequencer) : Prop where
  runs : s.runs.WellFormed
  fits : ∀ t ∈ s.tasks, t.work.Fits s.runs
  /-- A walker that did not end has something left to do. -/
  rest : ∀ t ∈ s.tasks, ∀ w, t.work = .walk w → w.rest ≠ []
  awake : ∀ t ∈ s.asleep, s.isCancelled t.work = false
  due : ∀ t ∈ s.asleep, s.now < t.due
  steps : ∀ step ∈ s.steps, step.run ≤ s.runs.lastRun

theorem wellFormed_rebuilt (s : Sequencer) : s.rebuilt.WellFormed where
  runs := Runs.wellFormed_init
  fits := by
    intro t h
    cases h
  rest := by
    intro t h
    cases h
  awake := by
    intro t h
    cases h
  due := by
    intro t h
    cases h
  steps := by
    intro step h
    cases h

namespace WellFormed

/-- The current run is the one that was started last. -/
theorem current_eq {s : Sequencer} (h : s.WellFormed) {run : Stamp} (hrun : s.current = some run) :
    run = s.runs.lastRun := by
  obtain ⟨active, hactive, rfl⟩ := Option.map_eq_some_iff.mp hrun
  exact (h.runs.active active hactive).last

/-- Moving tasks between the parts of the list, and forgetting some. -/
theorem of_tasks {s s' : Sequencer} (h : s.WellFormed) (hruns : s'.runs = s.runs)
    (htasks : ∀ t ∈ s'.tasks, t ∈ s.tasks) (hasleep : ∀ t ∈ s'.asleep, t ∈ s.asleep)
    (hnow : ∀ t ∈ s'.asleep, s'.now < t.due) (hsteps : s'.steps = s.steps) : s'.WellFormed := by
  refine ⟨hruns ▸ h.runs, ?_, fun t ht => h.rest t (htasks t ht), ?_, hnow, ?_⟩
  · intro t ht
    rw [hruns]
    exact h.fits t (htasks t ht)
  · intro t ht
    unfold isCancelled
    rw [hruns]
    exact h.awake t (hasleep t ht)
  · rw [hsteps, hruns]
    exact h.steps

/-! ## What turns consist of -/

theorem dispatch {s : Sequencer} (h : s.WellFormed) {run : Stamp} (hpos : 0 < run)
    (hrun : run ≤ s.runs.lastRun) (script : Nat) (a : Action) : (s.dispatch run script a).WellFormed := by
  have htasks := s.tasks_dispatch_perm run script a
  refine ⟨h.runs, ?_, ?_, h.awake, h.due, ?_⟩
  · intro t ht
    rcases List.mem_append.mp (htasks.mem_iff.mp ht) with hc | ht
    · obtain ⟨c, rfl, rfl, hscope⟩ := mem_clearsOf hc
      exact h.runs.fits_clear hpos hrun hscope
    · exact h.fits t ht
  · intro t ht w hw
    rcases List.mem_append.mp (htasks.mem_iff.mp ht) with hc | ht
    · obtain ⟨c, rfl, -, -⟩ := mem_clearsOf hc
      cases hw
    · exact h.rest t ht w hw
  · intro step hstep
    rw [steps_dispatch] at hstep
    rcases List.mem_append.mp hstep with hstep | hstep
    · exact h.steps step hstep
    · rw [List.mem_singleton.mp hstep]
      exact hrun

/-- A task that is added to a well-formed sequencer. -/
theorem add {s s' : Sequencer} (h : s.WellFormed) {t : Ready} (hframe : s'.frame = s.frame)
    (htasks : s'.tasks.Perm (t :: s.tasks)) (hfits : t.work.Fits s.runs)
    (hrest : ∀ w, t.work = .walk w → w.rest ≠ [])
    (hasleep : ∀ u ∈ s'.asleep, u ∈ s.asleep ∨ s.isCancelled u.work = false ∧ s.now < u.due)
    (hsteps : s'.steps = s.steps) : s'.WellFormed := by
  have hruns := runs_of_frame hframe
  have hnow := now_of_frame hframe
  refine ⟨hruns ▸ h.runs, ?_, ?_, ?_, ?_, ?_⟩
  · intro u hu
    rw [hruns]
    rcases List.mem_cons.mp (htasks.mem_iff.mp hu) with rfl | hu
    · exact hfits
    · exact h.fits u hu
  · intro u hu
    rcases List.mem_cons.mp (htasks.mem_iff.mp hu) with rfl | hu
    · exact hrest
    · exact h.rest u hu
  · intro u hu
    rw [isCancelled_of_frame hframe]
    rcases hasleep u hu with hu | hu
    · exact h.awake u hu
    · exact hu.1
  · intro u hu
    rw [hnow]
    rcases hasleep u hu with hu | hu
    · exact h.due u hu
    · exact hu.2
  · rw [hsteps, hruns]
    exact h.steps

theorem sleep {s : Sequencer} (h : s.WellFormed) {work : Work} {due : Nat}
    (hfits : work.Fits s.runs) (hrest : ∀ w, work = .walk w → w.rest ≠ [])
    (hlive : s.isCancelled work = false) (hdue : s.now < due) : (s.sleep work due).WellFormed := by
  refine h.add rfl (s.tasks_sleep_perm work due) hfits hrest ?_ rfl
  intro u hu
  rcases List.mem_append.mp hu with hu | hu
  · exact .inl hu
  · rw [List.mem_singleton.mp hu]
    exact .inr ⟨hlive, hdue⟩

theorem yield {s : Sequencer} (h : s.WellFormed) {work : Work} (hfits : work.Fits s.runs)
    (hrest : ∀ w, work = .walk w → w.rest ≠ []) : (s.yield work).WellFormed :=
  h.add rfl (s.tasks_yield_perm work) hfits hrest (fun _ => .inl) rfl

theorem spawn {s : Sequencer} (h : s.WellFormed) {work : Work} (hfits : work.Fits s.runs)
    (hrest : ∀ w, work = .walk w → w.rest ≠ []) : (s.spawn work).WellFormed :=
  h.add rfl (s.tasks_spawn_perm work) hfits hrest (fun _ => .inl) rfl

theorem enter {s : Sequencer} (h : s.WellFormed) (epoch : Nat) : (s.enter epoch).WellFormed := by
  unfold Sequencer.enter
  split
  · exact ⟨h.runs, h.fits, h.rest, h.awake, h.due, h.steps⟩
  · exact h

theorem leave {s : Sequencer} (h : s.WellFormed) (epoch : Nat) : (s.leave epoch).WellFormed := by
  unfold Sequencer.leave
  split
  · exact ⟨h.runs, h.fits, h.rest, h.awake, h.due, h.steps⟩
  · exact h

theorem fire {s : Sequencer} (h : s.WellFormed) (c : Clear) : (s.fire c).WellFormed :=
  h.of_tasks rfl (fun _ => id) (fun _ => id) h.due (steps_fire s c)

/-! ## Turns -/

theorem walkerTurn {s : Sequencer} (h : s.WellFormed) {w : Walker} (hw : w.Fits s.runs)
    (hrest : w.rest ≠ []) (due : Option Nat) : (s.walkerTurn w due).WellFormed := by
  cases live : s.isCancelled (.walk w) with
  | true =>
      rw [walkerTurn_of_cancelled live]
      exact h.leave w.epoch
  | false =>
      refine walkerTurn_induction (P := fun s' _ => s'.WellFormed ∧ s'.frame = s.frame)
        ?_ ?_ ?_ ?_ live ⟨h, rfl⟩ ?_ ?_
      · rintro s' a rest - ⟨hs', hframe⟩
        refine ⟨hs'.dispatch hw.run_pos ?_ w.script a, hframe⟩
        rw [runs_of_frame hframe]
        exact hw.run_le
      · rintro s' ⟨hs', -⟩
        exact hs'.leave w.epoch
      · rintro s' a rest hdelay ⟨hs', hframe⟩
        refine hs'.sleep ?_ ?_ ?_ ?_
        · rw [runs_of_frame hframe]
          exact hw.shorten _
        · rintro _ ⟨⟩
          exact List.cons_ne_nil _ _
        · rw [isCancelled_of_frame hframe]
          exact live
        · exact Nat.lt_add_of_pos_right (Nat.pos_of_ne_zero hdelay)
      · rintro s' a rest - ⟨hs', hframe⟩
        refine hs'.yield ?_ ?_
        · rw [runs_of_frame hframe]
          exact hw.shorten _
        · rintro _ ⟨⟩
          exact List.cons_ne_nil _ _
      · intro a rest _ _ _ _
        exact ⟨h.dispatch hw.run_pos hw.run_le w.script a, rfl⟩
      · intro d _ hd
        refine h.sleep hw ?_ live hd
        rintro _ ⟨⟩
        exact hrest

theorem without {s : Sequencer} (h : s.WellFormed) {place : Nat} {t : Ready}
    (ht : s.ready[place]? = some t) : (s.without place).WellFormed := by
  refine h.of_tasks rfl ?_ (fun _ => id) h.due rfl
  intro u hu
  exact (tasks_without_perm ht).mem_iff.mpr (List.mem_cons_of_mem _ hu)

theorem turnAt {s : Sequencer} (h : s.WellFormed) (place : Nat) (dueFirst : Bool) :
    (s.turnAt place dueFirst).WellFormed := by
  have hmem {t : Ready} (ht : s.ready[place]? = some t) : t ∈ s.tasks :=
    (tasks_without_perm ht).mem_iff.mpr List.mem_cons_self
  apply turnAt_induction
  · intro _
    exact h
  · intro w due ht
    exact (h.without ht).walkerTurn (h.fits _ (hmem ht)) (h.rest _ (hmem ht) w rfl) due
  · intro c due ht
    exact h.without ht
  · intro c due ht
    exact (h.without ht).fire c
  · intro c due d ht hlive hdue
    exact (h.without ht).sleep (h.fits _ (hmem ht)) nofun hlive hdue

/-! ## The clock -/

theorem wakeAt {s : Sequencer} (h : s.WellFormed) (time : Nat) : (s.wakeAt time).WellFormed := by
  refine h.of_tasks rfl ?_ ?_ ?_ rfl
  · intro t ht
    exact (s.tasks_wakeAt_perm time).mem_iff.mp ht
  · intro t ht
    rw [wakeAt_asleep] at ht
    exact List.mem_of_mem_filter ht
  · intro t ht
    rw [wakeAt_asleep] at ht
    simpa using List.of_mem_filter ht

theorem rejoin {s : Sequencer} (h : s.WellFormed) : s.rejoin.WellFormed :=
  h.of_tasks rfl (fun _ => s.tasks_rejoin_perm.mem_iff.mp) (fun _ => id) h.due rfl

/-! ## Calls -/

/-- Changing the runs, and waking the tasks that were cancelled by it. -/
theorem wakeCancelled {s s' : Sequencer} (h : s.WellFormed) (hruns : s'.runs.WellFormed)
    (hfits : ∀ work : Work, work.Fits s.runs → work.Fits s'.runs)
    (hlast : s.runs.lastRun ≤ s'.runs.lastRun) (htasks : s'.tasks = s.tasks)
    (hasleep : s'.asleep = s.asleep) (hnow : s'.now = s.now) (hsteps : s'.steps = s.steps) :
    s'.wakeCancelled.WellFormed := by
  have hperm := s'.tasks_wakeCancelled_perm
  rw [htasks] at hperm
  refine ⟨hruns, ?_, ?_, ?_, ?_, ?_⟩
  · intro t ht
    exact hfits _ (h.fits t (hperm.mem_iff.mp ht))
  · intro t ht
    exact h.rest t (hperm.mem_iff.mp ht)
  · intro t ht
    change s'.isCancelled t.work = false
    rw [wakeCancelled_asleep] at ht
    simpa using List.of_mem_filter ht
  · intro t ht
    rw [wakeCancelled_asleep, hasleep] at ht
    exact hnow ▸ h.due t (List.mem_of_mem_filter ht)
  · intro step hstep
    have hstep : step ∈ s'.steps := hstep
    rw [hsteps] at hstep
    exact Nat.le_trans (h.steps step hstep) hlast

theorem cancelCurrent {s : Sequencer} (h : s.WellFormed) : s.cancelCurrent.WellFormed := by
  refine h.wakeCancelled h.runs.cancelActive (fun _ => Runs.fits_cancelActive) ?_ rfl rfl rfl rfl
  exact Nat.le_of_eq (Runs.cancelActive_lastRun s.runs).symm

theorem openRun {s : Sequencer} (h : s.WellFormed) (event : Event) :
    (s.openRun event).2.WellFormed := by
  have hopen : ({ s with store := s.store.push s.store.snapshot }.beginRun).2.WellFormed := by
    refine h.wakeCancelled (h.runs.start) (fun _ => Runs.fits_start) ?_ rfl rfl rfl rfl
    exact Nat.le_succ_of_le (Nat.le_of_eq (Runs.cancelActive_lastRun s.runs).symm)
  exact hopen.of_tasks rfl (fun _ => id) (fun _ => id) hopen.due (steps_note rfl _)

theorem startScript {s : Sequencer} (h : s.WellFormed) {run : ActiveRun}
    (hrun : s.runs.active = some run) {epoch : Nat} (hepoch : epoch = s.runs.epoch)
    (script : Script × Nat) : (s.startScript run epoch script).WellFormed := by
  have fits := h.runs.active run hrun
  have hs := h.dispatch fits.pos (Nat.le_of_eq fits.last) script.2 script.1.head
  unfold Sequencer.startScript
  dsimp only
  split
  · exact hs
  · rename_i hrest
    refine (hs.enter _).spawn ?_ ?_
    · rw [runs_of_frame (enter_frame _ _), hepoch]
      exact h.runs.fits_walker hrun _ _
    · rintro _ ⟨⟩
      simpa using hrest

theorem startScripts {s : Sequencer} (h : s.WellFormed) {run : ActiveRun}
    (hrun : s.runs.active = some run) {epoch : Nat} (hepoch : epoch = s.runs.epoch)
    (scripts : List Script) (place : Nat) : (s.startScripts run epoch scripts place).WellFormed := by
  induction scripts generalizing s place with
  | nil => exact h
  | cons script scripts ih =>
      have hruns := runs_of_frame (startScript_frame s run epoch (script, place))
      rw [startScripts_cons]
      refine ih (h.startScript hrun hepoch (script, place)) ?_ ?_ (place + 1) <;> rw [hruns]
      · exact hrun
      · exact hepoch

theorem start {s : Sequencer} (h : s.WellFormed) (event : Event) : (s.start event).2.WellFormed := by
  rcases start_cases s event with ⟨-, heq⟩ | ⟨-, heq⟩ <;> rw [heq]
  · exact h
  · exact (h.openRun event).startScripts (openRun_active s event) rfl _ _

theorem undo {s : Sequencer} (h : s.WellFormed) : s.undo.2.WellFormed := by
  have hc := h.cancelCurrent
  rcases undo_cases s with ⟨-, heq⟩ | ⟨entry, older, -, heq⟩ <;> rw [heq]
  · exact hc
  · exact hc.of_tasks rfl (fun _ => id) (fun _ => id) hc.due (steps_note rfl _)

theorem reset {s : Sequencer} (h : s.WellFormed) : s.reset.WellFormed := by
  have hr : ({ s with runs := s.runs.reset, inFlight := 0 }.wakeCancelled).WellFormed :=
    h.wakeCancelled h.runs.reset (fun _ => Runs.fits_reset h.runs) (Nat.le_refl _) rfl rfl rfl rfl
  exact hr.of_tasks rfl (fun _ => id) (fun _ => id) hr.due (steps_note rfl _)

theorem call {s : Sequencer} (h : s.WellFormed) (c : Call) : (s.call c).2.WellFormed := by
  rcases call_cases s c with ⟨event, heq⟩ | heq | heq | ⟨_, _, _, heq⟩ <;> rw [heq]
  · exact h.start event
  · exact h.undo
  · exact h.reset
  · exact ⟨h.runs, h.fits, h.rest, h.awake, h.due, h.steps⟩

/-- Every move keeps a sequencer well-formed. -/
theorem move {s : Sequencer} (h : s.WellFormed) (m : Move) : (s.move m).WellFormed := by
  cases m with
  | call c => exact h.call c
  | turn place dueFirst => exact h.turnAt place dueFirst
  | pass ms => exact h.wakeAt (s.now + ms)
  | rejoin => exact h.rejoin

theorem moves {s : Sequencer} (h : s.WellFormed) (ms : List Move) : (s.moves ms).WellFormed := by
  induction ms generalizing s with
  | nil => exact h
  | cons m ms ih => exact ih (h.move m)

end WellFormed

/-- Every state that a sequencer comes to is well-formed. -/
theorem Reachable.wellFormed {s : Sequencer} (h : s.Reachable) : s.WellFormed := by
  induction h with
  | built s => exact wellFormed_rebuilt s
  | move m _ ih => exact ih.move m

end SpriteStage.Sequencer
