import Mathlib.Data.List.Perm.Basic
import SpriteStage.Proofs.Sequencer.Steps

/-!
# Walks in order

A run has one walker for each of its scripts that has more than a head, until the walker ends. What
was executed of the script so far, followed by what the walker has left, is the script, and each step
comes a step delay after the one before it. `OnTrack` says so of one script of one run;
`OnTrack.move` keeps it through every move, and `onTrack_start` establishes it.
-/

namespace SpriteStage

def Work.walks (work : Work) (run : Stamp) (place : Nat) : Bool :=
  match work with
  | .walk w => decide (w.run = run ∧ w.script = place)
  | .clear _ => false

namespace Sequencer

def stepsOf (s : Sequencer) (run : Stamp) (place : Nat) : List Step :=
  s.steps.filter fun step => decide (step.run = run ∧ step.script = place)

def walkersOf (s : Sequencer) (run : Stamp) (place : Nat) : List Ready :=
  s.tasks.filter fun t => t.work.walks run place

/-! ## How the steps and the walkers of a script change -/

section Changes

variable {s s' : Sequencer} {run : Stamp} {place : Nat}

theorem stepsOf_of_steps (h : s'.steps = s.steps) : s'.stepsOf run place = s.stepsOf run place := by
  unfold stepsOf
  rw [h]

theorem stepsOf_dispatch_self (s : Sequencer) (run : Stamp) (place : Nat) (a : Action) :
    (s.dispatch run place a).stepsOf run place =
      s.stepsOf run place ++ [s.stepOf run place a] := by
  unfold stepsOf
  rw [steps_dispatch, List.filter_append, List.filter_singleton]
  simp [stepOf]

theorem stepsOf_dispatch_of_ne {run' : Stamp} {place' : Nat} (hne : ¬(run' = run ∧ place' = place))
    (s : Sequencer) (a : Action) :
    (s.dispatch run' place' a).stepsOf run place = s.stepsOf run place := by
  unfold stepsOf
  rw [steps_dispatch, List.filter_append, List.filter_singleton]
  simp [stepOf, hne]

theorem walkersOf_perm (h : s'.tasks.Perm s.tasks) :
    (s'.walkersOf run place).Perm (s.walkersOf run place) :=
  h.filter _

theorem walkersOf_add_self {t : Ready} (h : s'.tasks.Perm (t :: s.tasks))
    (ht : t.work.walks run place = true) :
    (s'.walkersOf run place).Perm (t :: s.walkersOf run place) := by
  have hfilter := h.filter fun t => t.work.walks run place
  rwa [List.filter_cons, if_pos ht] at hfilter

theorem walkersOf_add_of_ne {t : Ready} (h : s'.tasks.Perm (t :: s.tasks))
    (ht : t.work.walks run place = false) :
    (s'.walkersOf run place).Perm (s.walkersOf run place) := by
  have hfilter := h.filter fun t => t.work.walks run place
  rwa [List.filter_cons, if_neg (by simp [ht])] at hfilter

/-- A step adds clears to the tasks, but no walker. -/
theorem walkersOf_dispatch_perm (s : Sequencer) (run' : Stamp) (script : Nat) (a : Action) :
    ((s.dispatch run' script a).walkersOf run place).Perm (s.walkersOf run place) := by
  have hfilter := (s.tasks_dispatch_perm run' script a).filter fun t => t.work.walks run place
  have hclears : (s.clearsOf run' a).filter (fun t => t.work.walks run place) = [] := by
    rw [List.filter_eq_nil_iff]
    intro t ht
    obtain ⟨c, rfl, -, -⟩ := mem_clearsOf ht
    exact Bool.false_ne_true
  rwa [List.filter_append, hclears, List.nil_append] at hfilter

theorem dispatch_walkersOf (h : s.walkersOf run place = []) (a : Action) :
    (s.dispatch run place a).walkersOf run place = [] :=
  List.perm_nil.mp (h ▸ walkersOf_dispatch_perm s run place a)

end Changes

/-- Nothing was executed of a script of a run, and nothing walks along it. -/
def Untouched (s : Sequencer) (run : Stamp) (place : Nat) : Prop :=
  s.stepsOf run place = [] ∧ s.walkersOf run place = []

/-- What was executed of a script of a run, and what was left of it then. -/
structure Walked (s : Sequencer) (run : Stamp) (place : Nat) (script : Script)
    (rest : List Action) : Prop where
  opened : run ≤ s.runs.lastRun
  begun : s.stepsOf run place ≠ []
  order : (s.stepsOf run place).map Step.action ++ rest = script.actions
  spaced : (s.stepsOf run place).Pairwise fun a b => a.time + s.stepTime ≤ b.time
  past : ∀ step ∈ s.stepsOf run place, step.time ≤ s.now

/-- A script of a run is on track: its walker, if it did not end, has just the rest of the script
left and does not wake before a step delay is over. -/
def OnTrack (s : Sequencer) (run : Stamp) (place : Nat) (script : Script) : Prop :=
  ∃ rest, s.Walked run place script rest ∧
    (s.walkersOf run place = [] ∨
      ∃ w due, s.walkersOf run place = [⟨.walk w, due⟩] ∧ w.rest = rest ∧
        ∀ d, due = some d → ∀ step ∈ s.stepsOf run place, step.time + s.stepTime ≤ d)

variable {s s' : Sequencer} {run : Stamp} {place : Nat} {script : Script} {rest : List Action}

/-! ## A walker in its turn -/

namespace Walked

/-- The steps of a script stay what they were when time passes and other things happen. -/
theorem of_stepsOf (h : s.Walked run place script rest)
    (hsteps : s'.stepsOf run place = s.stepsOf run place) (hlast : s.runs.lastRun ≤ s'.runs.lastRun)
    (htime : s'.stepTime = s.stepTime) (hnow : s.now ≤ s'.now) :
    s'.Walked run place script rest := by
  refine ⟨Nat.le_trans h.opened hlast, ?_, ?_, ?_, ?_⟩ <;> rw [hsteps]
  · exact h.begun
  · exact h.order
  · rw [htime]
    exact h.spaced
  · intro step hstep
    exact Nat.le_trans (h.past step hstep) hnow

theorem of_frame (h : s.Walked run place script rest) (hframe : s'.frame = s.frame)
    (hsteps : s'.steps = s.steps) : s'.Walked run place script rest := by
  have hruns := runs_of_frame hframe
  have hnow := now_of_frame hframe
  exact h.of_stepsOf (stepsOf_of_steps hsteps) (Nat.le_of_eq (congrArg Runs.lastRun hruns.symm))
    (stepTime_of_frame hframe) (Nat.le_of_eq hnow.symm)

/-- The next step of a script, at an instant that is a step delay after those before. -/
theorem dispatch {a : Action} (h : s.Walked run place script (a :: rest))
    (hspace : ∀ step ∈ s.stepsOf run place, step.time + s.stepTime ≤ s.now) :
    (s.dispatch run place a).Walked run place script rest := by
  have hsteps := stepsOf_dispatch_self s run place a
  refine ⟨h.opened, ?_, ?_, ?_, ?_⟩ <;> rw [hsteps]
  · simp
  · rw [List.map_append, List.append_assoc]
    exact h.order
  · refine List.pairwise_append.mpr ⟨h.spaced, List.pairwise_singleton _ _, ?_⟩
    intro step hstep next hnext
    rw [List.mem_singleton.mp hnext]
    exact hspace step hstep
  · intro step hstep
    rcases List.mem_append.mp hstep with hstep | hstep
    · exact h.past step hstep
    · rw [List.mem_singleton.mp hstep]
      exact Nat.le_refl _

/-- Nothing walks along the script any more. -/
theorem onTrack_of_nil (h : s.Walked run place script rest) (hnone : s.walkersOf run place = []) :
    s.OnTrack run place script :=
  ⟨rest, h, .inl hnone⟩

/-- A walker gets what is left, to wake when the step delay is over, if it sleeps. -/
theorem onTrack_of_add (h : s.Walked run place script rest) (hnone : s.walkersOf run place = [])
    {w : Walker} (hw : w.run = run ∧ w.script = place) (hrest : w.rest = rest) {due : Option Nat}
    (hdue : ∀ d, due = some d → ∀ step ∈ s.stepsOf run place, step.time + s.stepTime ≤ d)
    (hframe : s'.frame = s.frame) (hsteps : s'.steps = s.steps)
    (htasks : s'.tasks.Perm (⟨.walk w, due⟩ :: s.tasks)) : s'.OnTrack run place script := by
  have hwalks : (Work.walk w).walks run place = true := by simp [Work.walks, hw]
  have hwalkers := walkersOf_add_self htasks hwalks
  rw [hnone] at hwalkers
  refine ⟨rest, h.of_frame hframe hsteps,
    .inr ⟨w, due, List.perm_singleton.mp hwalkers, hrest, ?_⟩⟩
  rw [stepsOf_of_steps hsteps, stepTime_of_frame hframe]
  exact hdue

/-- The walker ends. -/
theorem leave (h : s.Walked run place script rest) (hnone : s.walkersOf run place = [])
    (epoch : Nat) : (s.leave epoch).OnTrack run place script := by
  refine (h.of_frame (leave_frame s epoch) (steps_leave s epoch)).onTrack_of_nil ?_
  unfold walkersOf
  rw [tasks_leave]
  exact hnone

end Walked

/-- The turn of the walker of a script, which was taken out of the queue. -/
theorem onTrack_walkerTurn {w : Walker} {due : Option Nat} (hw : w.run = run ∧ w.script = place)
    (h : s.Walked run place script w.rest) (hnone : s.walkersOf run place = [])
    (hdue : ∀ d, due = some d → ∀ step ∈ s.stepsOf run place, step.time + s.stepTime ≤ d) :
    (s.walkerTurn w due).OnTrack run place script := by
  obtain ⟨rfl, rfl⟩ := hw
  cases live : s.isCancelled (.walk w) with
  | true =>
      rw [walkerTurn_of_cancelled live]
      exact h.leave hnone w.epoch
  | false =>
      refine walkerTurn_induction (Q := fun s' => s'.OnTrack w.run w.script script)
        (P := fun s' rest => s'.Walked w.run w.script script rest ∧ s'.walkersOf w.run w.script = [])
        ?_ ?_ ?_ ?_ live ⟨h, hnone⟩ ?_ ?_
      · -- without a delay a step may come at the instant of the one before
        rintro s' a rest delay ⟨h, hnone⟩
        refine ⟨h.dispatch ?_, dispatch_walkersOf hnone a⟩
        rw [delay]
        exact h.past
      · rintro s' ⟨h, hnone⟩
        exact h.leave hnone w.epoch
      · rintro s' a rest - ⟨h, hnone⟩
        have htasks := tasks_sleep_perm s' (.walk { w with rest := a :: rest }) (s'.now + s'.stepTime)
        refine h.onTrack_of_add (w := { w with rest := a :: rest }) hnone ⟨rfl, rfl⟩ rfl ?_ rfl rfl
          htasks
        rintro _ ⟨⟩ step hstep
        exact Nat.add_le_add_right (h.past step hstep) _
      · rintro s' a rest - ⟨h, hnone⟩
        have htasks := tasks_yield_perm s' (.walk { w with rest := a :: rest })
        refine h.onTrack_of_add (w := { w with rest := a :: rest }) hnone ⟨rfl, rfl⟩ rfl ?_ rfl rfl
          htasks
        rintro _ ⟨⟩
      · intro a rest d hd hnow hrest
        rw [hrest] at h
        refine ⟨h.dispatch ?_, dispatch_walkersOf hnone a⟩
        intro step hstep
        exact Nat.le_trans (hdue d hd step hstep) hnow
      · intro d hd _
        refine h.onTrack_of_add hnone ⟨rfl, rfl⟩ rfl ?_ rfl rfl (tasks_sleep_perm s _ d)
        rintro _ ⟨⟩
        exact hdue d hd

/-! ## Everything else -/

/-- What happened between two states changed nothing for a script of a run. -/
def Undisturbed (s s' : Sequencer) (run : Stamp) (place : Nat) : Prop :=
  s'.stepsOf run place = s.stepsOf run place ∧
    (s'.walkersOf run place).Perm (s.walkersOf run place)

namespace Undisturbed

theorem of_eq (hsteps : s'.steps = s.steps) (htasks : s'.tasks.Perm s.tasks) :
    Undisturbed s s' run place :=
  ⟨stepsOf_of_steps hsteps, walkersOf_perm htasks⟩

theorem trans {s'' : Sequencer} (h : Undisturbed s s' run place)
    (h' : Undisturbed s' s'' run place) : Undisturbed s s'' run place :=
  ⟨h'.1.trans h.1, h'.2.trans h.2⟩

theorem add {t : Ready} (ht : t.work.walks run place = false) (hsteps : s'.steps = s.steps)
    (htasks : s'.tasks.Perm (t :: s.tasks)) : Undisturbed s s' run place :=
  ⟨stepsOf_of_steps hsteps, walkersOf_add_of_ne htasks ht⟩

theorem dispatch {run' : Stamp} {place' : Nat} (hne : ¬(run' = run ∧ place' = place))
    (s : Sequencer) (a : Action) : Undisturbed s (s.dispatch run' place' a) run place :=
  ⟨stepsOf_dispatch_of_ne hne s a, walkersOf_dispatch_perm s run' place' a⟩

theorem untouched (h : Undisturbed s s' run place) (hs : s.Untouched run place) :
    s'.Untouched run place := by
  refine ⟨h.1.trans hs.1, List.perm_nil.mp ?_⟩
  rw [← hs.2]
  exact h.2

theorem onTrack (h : Undisturbed s s' run place) (hlast : s.runs.lastRun ≤ s'.runs.lastRun)
    (htime : s'.stepTime = s.stepTime) (hnow : s.now ≤ s'.now) (hs : s.OnTrack run place script) :
    s'.OnTrack run place script := by
  obtain ⟨rest, hwalked, hwalker⟩ := hs
  obtain ⟨hsteps, hwalkers⟩ := h
  refine ⟨rest, hwalked.of_stepsOf hsteps hlast htime hnow, ?_⟩
  rcases hwalker with hnone | ⟨w, due, hone, hrest, hdue⟩
  · left
    exact List.perm_nil.mp (hnone ▸ hwalkers)
  · right
    refine ⟨w, due, List.perm_singleton.mp (hone ▸ hwalkers), hrest, ?_⟩
    rw [hsteps, htime]
    exact hdue

theorem onTrack_of_frame (h : Undisturbed s s' run place) (hframe : s'.frame = s.frame)
    (hs : s.OnTrack run place script) : s'.OnTrack run place script := by
  have hruns := runs_of_frame hframe
  exact h.onTrack (Nat.le_of_eq (congrArg Runs.lastRun hruns.symm)) (stepTime_of_frame hframe)
    (Nat.le_of_eq (now_of_frame hframe).symm) hs

/-- The turn of another task. -/
theorem turn {t : Ready} (ht : t.work.walks run place = false) (s : Sequencer) (dueFirst : Bool) :
    Undisturbed s (s.turn dueFirst t) run place := by
  unfold Sequencer.turn
  split
  · rename_i w hw
    have hne : ¬(w.run = run ∧ w.script = place) := by simpa [hw, Work.walks] using ht
    have hwalks (rest : List Action) :
        (Work.walk { w with rest }).walks run place = false := by simpa [Work.walks] using hne
    cases live : s.isCancelled (.walk w) with
    | true =>
        rw [walkerTurn_of_cancelled live]
        exact .of_eq (steps_leave s w.epoch) (by rw [tasks_leave])
    | false =>
        refine walkerTurn_induction (P := fun s' _ => Undisturbed s s' run place)
          (Q := fun s' => Undisturbed s s' run place) ?_ ?_ ?_ ?_ live (.of_eq rfl (List.Perm.refl _)) ?_ ?_
        · intro s' a _ _ h
          exact h.trans (.dispatch hne s' a)
        · intro s' h
          exact h.trans (.of_eq (steps_leave s' w.epoch) (by rw [tasks_leave]))
        · intro s' a rest _ h
          exact h.trans (.add (hwalks _) rfl (tasks_sleep_perm s' _ _))
        · intro s' a rest _ h
          exact h.trans (.add (hwalks _) rfl (tasks_yield_perm s' _))
        · intro a _ _ _ _ _
          exact .dispatch hne s a
        · intro d _ _
          exact .add (hwalks w.rest) rfl (tasks_sleep_perm s (.walk w) d)
  · rename_i c _
    rcases clearTurn_cases dueFirst s c t.due with ⟨h, -⟩ | ⟨h, -⟩ | ⟨-, -, h⟩ <;> rw [h]
    · exact .of_eq rfl (List.Perm.refl _)
    · exact .of_eq (steps_fire s c) (List.Perm.refl _)
    · exact .add rfl rfl (tasks_sleep_perm s (.clear c) _)

end Undisturbed

namespace OnTrack

theorem turnAt (h : s.OnTrack run place script) (slot : Nat) (dueFirst : Bool) :
    (s.turnAt slot dueFirst).OnTrack run place script := by
  cases ht : s.ready[slot]? with
  | none =>
      rw [turnAt_of_none ht]
      exact h
  | some t =>
      rw [turnAt_of_some ht]
      have htasks := tasks_without_perm ht
      have hframe : (s.without slot).frame = s.frame := rfl
      cases hwalks : t.work.walks run place with
      | true =>
          -- it is the one walker of the script, and none is left beside it
          have hwalkers := walkersOf_add_self htasks hwalks
          obtain ⟨rest, hwalked, hnone | ⟨w, due, hone, hrest, hdue⟩⟩ := h
          · rw [hnone] at hwalkers
            exact absurd hwalkers.nil_eq (List.cons_ne_nil _ _).symm
          · rw [hone] at hwalkers
            obtain ⟨rfl, hleft⟩ := List.cons.inj (List.perm_singleton.mp hwalkers.symm)
            have hw : w.run = run ∧ w.script = place := by simpa [Work.walks] using hwalks
            refine onTrack_walkerTurn hw ?_ hleft hdue
            rw [hrest]
            exact hwalked.of_frame hframe rfl
      | false =>
          have hwithout : Undisturbed s (s.without slot) run place :=
            ⟨rfl, (walkersOf_add_of_ne htasks hwalks).symm⟩
          have hturn := hwithout.trans (.turn hwalks (s.without slot) dueFirst)
          exact hturn.onTrack_of_frame (turn_frame dueFirst (s.without slot) t) h

end OnTrack

/-! ## Starting scripts -/

theorem startScript_undisturbed {active : ActiveRun} {started : Script × Nat}
    (hne : ¬(active.id = run ∧ started.2 = place)) (s : Sequencer) (epoch : Nat) :
    Undisturbed s (s.startScript active epoch started) run place := by
  unfold startScript
  dsimp only
  split
  · exact .dispatch hne s _
  · refine (Undisturbed.dispatch hne s started.1.head).trans ?_
    refine .add (t := ⟨.walk ⟨active.id, active.scope, epoch, started.2, started.1.rest⟩, none⟩)
      ?_ ?_ ?_
    · simpa [Work.walks] using hne
    · rw [steps_spawn, steps_enter]
    · have hspawn := tasks_spawn_perm ((s.dispatch active.id started.2 started.1.head).enter epoch)
        (.walk ⟨active.id, active.scope, epoch, started.2, started.1.rest⟩)
      rwa [tasks_enter] at hspawn

/-- Scripts of another run, and scripts at other places, leave a script as it is. -/
theorem startScripts_undisturbed {active : ActiveRun} {scripts : List Script} {first : Nat}
    (hne : active.id = run → place < first ∨ first + scripts.length ≤ place) (s : Sequencer)
    (epoch : Nat) : Undisturbed s (s.startScripts active epoch scripts first) run place := by
  induction scripts generalizing s first with
  | nil => exact .of_eq rfl (List.Perm.refl _)
  | cons started scripts ih =>
      rw [startScripts_cons]
      have hlength : (started :: scripts).length = scripts.length + 1 := rfl
      refine (startScript_undisturbed ?_ s epoch).trans (ih ?_ _)
      · rintro ⟨hrun, hplace⟩
        have hplace : first = place := hplace
        have := hne hrun
        omega
      · intro hrun
        have := hne hrun
        omega

/-- A script that is started is on track: its head was executed, and a walker has the rest. -/
theorem onTrack_startScript {active : ActiveRun} (hrun : active.id ≤ s.runs.lastRun)
    (hs : s.Untouched active.id place) (epoch : Nat) (script : Script) :
    (s.startScript active epoch (script, place)).OnTrack active.id place script := by
  obtain ⟨hsteps, hnone⟩ := hs
  have hstepsOf := stepsOf_dispatch_self s active.id place script.head
  rw [hsteps, List.nil_append] at hstepsOf
  have hwalked : (s.dispatch active.id place script.head).Walked active.id place script
      script.rest := by
    refine ⟨hrun, ?_, ?_, ?_, ?_⟩ <;> rw [hstepsOf]
    · exact List.cons_ne_nil _ _
    · rfl
    · exact List.pairwise_singleton _ _
    · intro step hstep
      rw [List.mem_singleton.mp hstep]
      exact Nat.le_refl _
  have hdispatched := dispatch_walkersOf hnone script.head
  unfold startScript
  dsimp only
  split
  · -- the script has no more than a head, so no walker is spawned
    exact hwalked.onTrack_of_nil hdispatched
  · have hframe : ∀ work, (((s.dispatch active.id place script.head).enter epoch).spawn work).frame =
        (s.dispatch active.id place script.head).frame := by
      intro work
      rw [spawn_frame, enter_frame]
    have hspawn := tasks_spawn_perm ((s.dispatch active.id place script.head).enter epoch)
      (.walk ⟨active.id, active.scope, epoch, place, script.rest⟩)
    rw [tasks_enter] at hspawn
    refine hwalked.onTrack_of_add (w := ⟨active.id, active.scope, epoch, place, script.rest⟩)
      hdispatched ⟨rfl, rfl⟩ rfl ?_ (hframe _) ?_ hspawn
    · rintro _ ⟨⟩
    · rw [steps_spawn, steps_enter]

theorem onTrack_startScripts {active : ActiveRun} {scripts : List Script} {first i : Nat}
    (hrun : active.id ≤ s.runs.lastRun) (hs : s.Untouched active.id (first + i))
    (hscript : scripts[i]? = some script) (epoch : Nat) :
    (s.startScripts active epoch scripts first).OnTrack active.id (first + i) script := by
  induction scripts generalizing s first i with
  | nil => cases hscript
  | cons started scripts ih =>
      rw [startScripts_cons]
      have hframe := startScript_frame s active epoch (started, first)
      have hlast := congrArg Runs.lastRun (runs_of_frame hframe)
      cases i with
      | zero =>
          -- the scripts after this one are at other places, so they leave it on track
          obtain rfl : started = script := by simpa using hscript
          have hstarted := onTrack_startScript hrun hs epoch started
          refine (startScripts_undisturbed ?_ _ epoch).onTrack_of_frame ?_ hstarted
          · intro _
            exact .inl (Nat.lt_succ_self first)
          · exact startScripts_frame _ active epoch scripts (first + 1)
      | succ i =>
          have hne : ¬(active.id = active.id ∧ first = first + (i + 1)) := by omega
          have hbefore : Undisturbed s (s.startScript active epoch (started, first)) active.id
              (first + (i + 1)) := startScript_undisturbed hne s epoch
          have hs' := hbefore.untouched hs
          rw [show first + (i + 1) = first + 1 + i by omega] at hs' ⊢
          exact ih (hlast ▸ hrun) hs' (by simpa using hscript)

/-! ## Calls -/

/-- A run that is about to be opened has executed nothing, and nothing walks for it. -/
theorem untouched_openRun (h : s.WellFormed) (event : Event) (place : Nat) :
    (s.openRun event).2.Untouched (s.runs.lastRun + 1) place := by
  have hs : s.Untouched (s.runs.lastRun + 1) place := by
    constructor
    · unfold stepsOf
      rw [List.filter_eq_nil_iff]
      intro step hstep
      have := h.steps step hstep
      simp only [decide_eq_true_eq]
      rintro ⟨hrun, -⟩
      exact Nat.not_succ_le_self _ (hrun ▸ this)
    · unfold walkersOf
      rw [List.filter_eq_nil_iff]
      intro t ht
      have hfits := h.fits t ht
      unfold Work.walks
      cases hw : t.work with
      | clear c => exact Bool.false_ne_true
      | walk w =>
          rw [hw] at hfits
          simp only [decide_eq_true_eq]
          rintro ⟨hrun, -⟩
          exact Nat.not_succ_le_self _ (hrun ▸ hfits.run_le)
  exact (Undisturbed.of_eq (steps_openRun s event) (tasks_openRun_perm s event)).untouched hs

/-- A run that is started has each of its scripts on track. -/
theorem onTrack_start (h : s.WellFormed) {event : Event} (hstart : (s.start event).1 = some run)
    (hscript : (s.program.scriptsFor event)[place]? = some script) :
    (s.start event).2.OnTrack run place script := by
  rcases start_cases s event with ⟨-, heq⟩ | ⟨-, heq⟩ <;> rw [heq] at hstart ⊢
  · cases hstart
  · obtain rfl := Option.some.inj hstart
    have hid := openRun_id s event
    have huntouched := untouched_openRun h event (0 + place)
    rw [← hid] at huntouched ⊢
    have hle : (s.openRun event).1.id ≤ (s.openRun event).2.runs.lastRun :=
      Nat.le_of_eq (((h.openRun event).runs.active _ (openRun_active s event)).last)
    have honTrack := onTrack_startScripts hle huntouched hscript (s.openRun event).2.runs.epoch
    rwa [Nat.zero_add] at honTrack

/-- At other places than those of its scripts a run executes nothing. -/
theorem untouched_start (h : s.WellFormed) {event : Event} (hstart : (s.start event).1 = some run)
    (hplace : (s.program.scriptsFor event).length ≤ place) :
    (s.start event).2.Untouched run place := by
  rcases start_cases s event with ⟨-, heq⟩ | ⟨-, heq⟩ <;> rw [heq] at hstart ⊢
  · cases hstart
  · obtain rfl := Option.some.inj hstart
    refine (startScripts_undisturbed ?_ _ _).untouched (untouched_openRun h event place)
    intro _
    right
    rwa [Nat.zero_add]

/-- A call leaves the scripts of earlier runs as they are. -/
theorem call_undisturbed (hrun : run ≤ s.runs.lastRun) (c : Call) :
    Undisturbed s (s.call c).2 run place := by
  have hrefl : Undisturbed s s run place := .of_eq rfl (List.Perm.refl _)
  rcases call_cases s c with ⟨event, heq⟩ | heq | heq | ⟨_, _, _, heq⟩ <;> rw [heq]
  · rcases start_cases s event with ⟨-, heq⟩ | ⟨-, heq⟩ <;> rw [heq]
    · exact hrefl
    · refine Undisturbed.trans (.of_eq (steps_openRun s event) (tasks_openRun_perm s event)) ?_
      refine startScripts_undisturbed ?_ _ _
      intro hid
      rw [openRun_id] at hid
      exact absurd hrun (hid ▸ Nat.not_succ_le_self _)
  · have htasks : s.undo.2.tasks.Perm s.tasks := by
      rcases undo_cases s with ⟨-, heq⟩ | ⟨_, _, -, heq⟩ <;> rw [heq] <;>
        exact tasks_wakeCancelled_perm _
    exact .of_eq (steps_undo s) htasks
  · exact .of_eq (steps_reset s) s.tasks_reset_perm
  · exact hrefl

/-! ## Moves -/

/-- A move that is no turn leaves the scripts of runs that were started as they are. -/
theorem move_undisturbed (hrun : run ≤ s.runs.lastRun) {m : Move}
    (hm : ∀ slot dueFirst, m ≠ .turn slot dueFirst) : Undisturbed s (s.move m) run place := by
  cases m with
  | call c => exact call_undisturbed hrun c
  | turn slot dueFirst => exact absurd rfl (hm slot dueFirst)
  | pass ms => exact .of_eq rfl (tasks_wakeAt_perm s _)
  | rejoin => exact .of_eq rfl s.tasks_rejoin_perm

/-- Every move keeps a script on track. -/
theorem OnTrack.move (h : s.OnTrack run place script) (m : Move) :
    (s.move m).OnTrack run place script := by
  by_cases hm : ∃ slot dueFirst, m = .turn slot dueFirst
  · obtain ⟨slot, dueFirst, rfl⟩ := hm
    exact h.turnAt slot dueFirst
  · push Not at hm
    obtain ⟨rest, hwalked, -⟩ := id h
    exact (move_undisturbed hwalked.opened hm).onTrack (move_lastRun_le s m) (move_stepTime s m)
      (now_le_move s m) h

theorem OnTrack.moves (h : s.OnTrack run place script) (ms : List Move) :
    (s.moves ms).OnTrack run place script := by
  induction ms generalizing s with
  | nil => exact h
  | cons m ms ih => exact ih (h.move m)

/-- Where a run has no script, no move executes anything. -/
theorem Untouched.move (h : s.Untouched run place) (hrun : run ≤ s.runs.lastRun) (m : Move) :
    (s.move m).Untouched run place := by
  by_cases hm : ∃ slot dueFirst, m = .turn slot dueFirst
  · obtain ⟨slot, dueFirst, rfl⟩ := hm
    rw [move_turn]
    cases ht : s.ready[slot]? with
    | none =>
        rw [turnAt_of_none ht]
        exact h
    | some t =>
        have hmem : t ∈ s.tasks := (tasks_without_perm ht).mem_iff.mpr List.mem_cons_self
        have hwalks : t.work.walks run place = false := by
          have hnone := List.filter_eq_nil_iff.mp h.2 t hmem
          simpa using hnone
        have hwithout : Undisturbed s (s.without slot) run place :=
          ⟨rfl, (walkersOf_add_of_ne (tasks_without_perm ht) hwalks).symm⟩
        rw [turnAt_of_some ht]
        exact (hwithout.trans (.turn hwalks (s.without slot) dueFirst)).untouched h
  · push Not at hm
    exact (move_undisturbed hrun hm).untouched h

theorem Untouched.moves (h : s.Untouched run place) (hrun : run ≤ s.runs.lastRun)
    (ms : List Move) : (s.moves ms).Untouched run place := by
  induction ms generalizing s with
  | nil => exact h
  | cons m ms ih => exact ih (h.move hrun m) (Nat.le_trans hrun (move_lastRun_le s m))

end Sequencer

end SpriteStage
