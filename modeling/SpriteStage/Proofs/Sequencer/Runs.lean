import SpriteStage.Sequencer.Task

/-!
# Runs and their scopes

The run that goes on is the one that was started last, in a scope of its own inside the scope of the
session, and neither scope was cancelled. A task fits such runs when it is no longer cancelled than
what it belongs to: a walker that was not cancelled belongs to the run that goes on, and a clear that
was not cancelled to the session. What changes the runs keeps both, which ties the scopes that a
walker looks at to the run that is current.
-/

namespace SpriteStage

structure ActiveRun.Fits (r : Runs) (run : ActiveRun) : Prop where
  pos : 0 < run.id
  last : run.id = r.lastRun
  number_lt : run.scope.number < r.scopes.opened
  number_ne : run.scope.number ≠ r.session.number
  around : run.scope.around = some r.session.number
  live : run.scope.number ∉ r.scopes.cancelled

structure Runs.WellFormed (r : Runs) : Prop where
  session_lt : r.session.number < r.scopes.opened
  session_around : r.session.around = none
  session_live : r.session.number ∉ r.scopes.cancelled
  cancelled_lt : ∀ n ∈ r.scopes.cancelled, n < r.scopes.opened
  active : ∀ run, r.active = some run → run.Fits r

structure Walker.Fits (r : Runs) (w : Walker) : Prop where
  run_pos : 0 < w.run
  run_le : w.run ≤ r.lastRun
  number_lt : w.scope.number < r.scopes.opened
  around_lt : ∀ n, w.scope.around = some n → n < r.scopes.opened
  epoch_le : w.epoch ≤ r.epoch
  /-- A walker that was not cancelled belongs to the run that goes on. -/
  live : r.scopes.isCancelled w.scope = false →
    r.active = some ⟨w.run, w.scope⟩ ∧ w.epoch = r.epoch
  /-- All walkers of a run share its scope. -/
  scope_eq : ∀ run, r.active = some run → run.id = w.run → run.scope = w.scope

structure Clear.Fits (r : Runs) (c : Clear) : Prop where
  run_pos : 0 < c.run
  run_le : c.run ≤ r.lastRun
  number_lt : c.scope.number < r.scopes.opened
  around : c.scope.around = none
  /-- A clear that was not cancelled belongs to the session. -/
  live : r.scopes.isCancelled c.scope = false → c.scope = r.session

/-- What remains of a walker fits like the walker. -/
theorem Walker.Fits.shorten {r : Runs} {w : Walker} (h : w.Fits r) (rest : List Action) :
    Walker.Fits r { w with rest } :=
  ⟨h.run_pos, h.run_le, h.number_lt, h.around_lt, h.epoch_le, h.live, h.scope_eq⟩

def Work.Fits (r : Runs) : Work → Prop
  | .walk w => w.Fits r
  | .clear c => c.Fits r

theorem Work.Fits.number_lt {r : Runs} {work : Work} (h : work.Fits r) :
    work.scope.number < r.scopes.opened := by
  cases work with
  | walk w => exact Walker.Fits.number_lt h
  | clear c => exact Clear.Fits.number_lt h

namespace Runs

theorem wellFormed_init : ({} : Runs).WellFormed where
  session_lt := Nat.zero_lt_one
  session_around := rfl
  session_live := by simp
  cancelled_lt := by simp
  active := by
    intro run h
    cases h

@[simp] theorem cancelActive_lastRun (r : Runs) : r.cancelActive.lastRun = r.lastRun := by
  unfold cancelActive
  split <;> rfl

@[simp] theorem cancelActive_epoch (r : Runs) : r.cancelActive.epoch = r.epoch := by
  unfold cancelActive
  split <;> rfl

@[simp] theorem cancelActive_session (r : Runs) : r.cancelActive.session = r.session := by
  unfold cancelActive
  split <;> rfl

@[simp] theorem cancelActive_opened (r : Runs) :
    r.cancelActive.scopes.opened = r.scopes.opened := by
  unfold cancelActive
  split <;> rfl

@[simp] theorem cancelActive_active (r : Runs) : r.cancelActive.active = none := by
  unfold cancelActive
  split
  · assumption
  · rfl

theorem current_cancelActive (r : Runs) : r.cancelActive.current = none := by
  unfold current
  rw [cancelActive_active]
  rfl

theorem lastRun_start (r : Runs) : r.start.2.lastRun = r.lastRun + 1 :=
  congrArg (· + 1) r.cancelActive_lastRun

theorem current_of_active {r : Runs} {run : ActiveRun} (h : r.active = some run) :
    r.current = some run.id := by
  unfold current
  rw [h]
  rfl

theorem WellFormed.active_isCancelled {r : Runs} (h : r.WellFormed) {run : ActiveRun}
    (hrun : r.active = some run) : r.scopes.isCancelled run.scope = false := by
  have fits := h.active run hrun
  refine Scopes.isCancelled_eq_false_iff.mpr ⟨fits.live, ?_⟩
  intro n hn heq
  rw [fits.around] at heq
  exact h.session_live (Option.some.inj heq ▸ hn)

theorem WellFormed.session_isCancelled {r : Runs} (h : r.WellFormed) :
    r.scopes.isCancelled r.session = false := by
  refine Scopes.isCancelled_eq_false_iff.mpr ⟨h.session_live, ?_⟩
  intro n _ heq
  rw [h.session_around] at heq
  cases heq

/-! ## Cancelling the run that goes on -/

theorem WellFormed.cancelActive {r : Runs} (h : r.WellFormed) : r.cancelActive.WellFormed := by
  unfold Runs.cancelActive
  split
  · exact h
  · rename_i run hrun
    have fits := h.active run hrun
    refine ⟨h.session_lt, h.session_around, ?_, ?_, nofun⟩
    · simp only [Scopes.mem_cancel, not_or]
      exact ⟨fits.number_ne.symm, h.session_live⟩
    · intro n hn
      rcases Scopes.mem_cancel.mp hn with rfl | hn
      · exact fits.number_lt
      · exact h.cancelled_lt n hn

theorem fits_cancelActive {r : Runs} {work : Work} (h : work.Fits r) :
    work.Fits r.cancelActive := by
  unfold Runs.cancelActive
  split
  · exact h
  · rename_i run hrun
    cases work with
    | walk w =>
        refine ⟨h.run_pos, h.run_le, h.number_lt, h.around_lt, h.epoch_le, ?_, nofun⟩
        -- a walker that is left alone would be one of the run that is cancelled
        intro hlive
        obtain ⟨hne, -, hlive⟩ := Scopes.isCancelled_cancel_eq_false hlive
        obtain ⟨hactive, -⟩ := h.live hlive
        rw [hrun] at hactive
        exact absurd (congrArg (Scope.number ∘ ActiveRun.scope) (Option.some.inj hactive)).symm hne
    | clear c =>
        refine ⟨h.run_pos, h.run_le, h.number_lt, h.around, ?_⟩
        intro hlive
        exact h.live (Scopes.isCancelled_cancel_eq_false hlive).2.2

/-! ## Starting a run -/

theorem WellFormed.start {r : Runs} (h : r.WellFormed) : r.start.2.WellFormed := by
  have hc := h.cancelActive
  refine ⟨Nat.lt_succ_of_lt hc.session_lt, hc.session_around, hc.session_live, ?_, ?_⟩
  · intro n hn
    exact Nat.lt_succ_of_lt (hc.cancelled_lt n hn)
  · intro run hrun
    cases hrun
    refine ⟨Nat.succ_pos _, rfl, Nat.lt_succ_self _, ?_, rfl, ?_⟩
    · exact Nat.ne_of_gt hc.session_lt
    · intro hmem
      exact Nat.lt_irrefl _ (hc.cancelled_lt _ hmem)

theorem fits_start {r : Runs} {work : Work} (h : work.Fits r) : work.Fits r.start.2 := by
  have hc := fits_cancelActive h
  cases work with
  | walk w =>
      refine ⟨hc.run_pos, Nat.le_succ_of_le hc.run_le, Nat.lt_succ_of_lt hc.number_lt, ?_,
        hc.epoch_le, ?_, ?_⟩
      · intro n hn
        exact Nat.lt_succ_of_lt (hc.around_lt n hn)
      · intro hlive
        have hactive := (hc.live hlive).1
        rw [cancelActive_active] at hactive
        cases hactive
      · intro run hrun hid
        cases hrun
        have hid : r.cancelActive.lastRun + 1 = w.run := hid
        have hle := hc.run_le
        rw [← hid] at hle
        exact absurd hle (Nat.not_succ_le_self _)
  | clear c =>
      exact ⟨hc.run_pos, Nat.le_succ_of_le hc.run_le, Nat.lt_succ_of_lt hc.number_lt, hc.around,
        hc.live⟩

/-- A walker of a new run fits. -/
theorem WellFormed.fits_walker {r : Runs} (h : r.WellFormed) {run : ActiveRun}
    (hrun : r.active = some run) (script : Nat) (rest : List Action) :
    (Work.walk ⟨run.id, run.scope, r.epoch, script, rest⟩).Fits r := by
  have fits := h.active run hrun
  refine ⟨fits.pos, Nat.le_of_eq fits.last, fits.number_lt, ?_, Nat.le_refl _,
    fun _ => ⟨hrun, rfl⟩, ?_⟩
  · intro n hn
    rw [fits.around] at hn
    cases hn
    exact h.session_lt
  · intro other hother _
    rw [hrun] at hother
    cases hother
    rfl

/-- A clear of the session fits. -/
theorem WellFormed.fits_clear {r : Runs} (h : r.WellFormed) {c : Clear} (hpos : 0 < c.run)
    (hrun : c.run ≤ r.lastRun) (hscope : c.scope = r.session) : (Work.clear c).Fits r := by
  refine ⟨hpos, hrun, hscope ▸ h.session_lt, hscope ▸ h.session_around, fun _ => hscope⟩

/-! ## Beginning a session -/

theorem WellFormed.reset {r : Runs} (h : r.WellFormed) : r.reset.WellFormed := by
  refine ⟨Nat.lt_succ_self _, rfl, ?_, ?_, nofun⟩
  · intro hmem
    rcases Scopes.mem_cancel.mp hmem with heq | hmem
    · exact Nat.lt_irrefl _ (heq ▸ h.session_lt)
    · exact Nat.lt_irrefl _ (h.cancelled_lt _ hmem)
  · intro n hn
    rcases Scopes.mem_cancel.mp hn with rfl | hn
    · exact Nat.lt_succ_of_lt h.session_lt
    · exact Nat.lt_succ_of_lt (h.cancelled_lt n hn)

/-- All tasks of the session that ends are cancelled. -/
theorem isCancelled_reset {r : Runs} (h : r.WellFormed) {work : Work} (hw : work.Fits r) :
    r.reset.scopes.isCancelled work.scope = true := by
  rw [← Bool.not_eq_false]
  intro hlive
  have hlive : (r.scopes.cancel r.session).isCancelled work.scope = false := hlive
  obtain ⟨hne, haround, hlive⟩ := Scopes.isCancelled_cancel_eq_false hlive
  cases work with
  | walk w =>
      have hactive := (hw.live hlive).1
      exact haround (h.active _ hactive).around
  | clear c => exact hne (congrArg Scope.number (hw.live hlive))

theorem fits_reset {r : Runs} (h : r.WellFormed) {work : Work} (hw : work.Fits r) :
    work.Fits r.reset := by
  have hcancelled := isCancelled_reset h hw
  cases work with
  | walk w =>
      refine ⟨hw.run_pos, hw.run_le, Nat.lt_succ_of_lt hw.number_lt, ?_,
        Nat.le_succ_of_le hw.epoch_le, ?_, nofun⟩
      · intro n hn
        exact Nat.lt_succ_of_lt (hw.around_lt n hn)
      · intro hlive
        rw [Work.scope, hlive] at hcancelled
        cases hcancelled
  | clear c =>
      refine ⟨hw.run_pos, hw.run_le, Nat.lt_succ_of_lt hw.number_lt, hw.around, ?_⟩
      intro hlive
      rw [Work.scope, hlive] at hcancelled
      cases hcancelled

end Runs

end SpriteStage
