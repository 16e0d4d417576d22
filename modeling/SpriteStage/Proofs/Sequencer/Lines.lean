import SpriteStage.Proofs.Sequencer.Steps

/-!
# The lines of a run

What one run is about to do: the line of each of its walkers, which is the place of the script and the
actions that are left of it, in the order in which the walkers stand in the queue or fell asleep.
Other tasks may stand between them. Their turns leave the lines of the run alone, and so does all that
happens to the sequencer from outside as long as the run goes on.
-/

namespace SpriteStage

/-- The place of a script and the actions that are left of it. -/
abbrev Line := Nat × List Action

def Work.line? (run : Stamp) : Work → Option Line
  | .walk w => if w.run = run then some (w.script, w.rest) else none
  | .clear _ => none

def Ready.line? (run : Stamp) (t : Ready) : Option (Line × Option Nat) :=
  (t.work.line? run).map fun line => (line, t.due)

def Sleeper.line? (run : Stamp) (t : Sleeper) : Option (Line × Nat) :=
  (t.work.line? run).map fun line => (line, t.due)

/-- When which action of which script was executed. -/
def Step.entry (step : Step) : Nat × Nat × Action := (step.time, step.script, step.action)

structure RunView where
  ready : List (Line × Option Nat)
  yielded : List (Line × Option Nat)
  asleep : List (Line × Nat)
  executed : List (Nat × Nat × Action)

namespace Sequencer

def runSteps (s : Sequencer) (run : Stamp) : List Step :=
  s.steps.filter fun step => decide (step.run = run)

def view (s : Sequencer) (run : Stamp) : RunView where
  ready := s.ready.filterMap (Ready.line? run)
  yielded := s.yielded.filterMap (Ready.line? run)
  asleep := s.asleep.filterMap (Sleeper.line? run)
  executed := (s.runSteps run).map Step.entry

section Tasks

variable {s : Sequencer} {run : Stamp}

theorem lines_clearsOf (s : Sequencer) (run run' : Stamp) (a : Action) :
    (s.clearsOf run' a).filterMap (Ready.line? run) = [] := by
  rw [List.filterMap_eq_nil_iff]
  intro t ht
  obtain ⟨c, rfl, -, -⟩ := mem_clearsOf ht
  rfl

theorem view_dispatch_self (s : Sequencer) (run : Stamp) (script : Nat) (a : Action) :
    (s.dispatch run script a).view run =
      { s.view run with executed := (s.view run).executed ++ [(s.now, script, a)] } := by
  have hready : (s.dispatch run script a).ready = s.ready ++ s.clearsOf run a := rfl
  unfold view runSteps
  rw [steps_dispatch, hready, List.filterMap_append, lines_clearsOf, List.append_nil,
    List.filter_append, List.filter_singleton]
  simp [stepOf, Step.entry, dispatch]

theorem view_dispatch_of_ne {run' : Stamp} (hne : run' ≠ run) (s : Sequencer) (script : Nat)
    (a : Action) : (s.dispatch run' script a).view run = s.view run := by
  have hready : (s.dispatch run' script a).ready = s.ready ++ s.clearsOf run' a := rfl
  unfold view runSteps
  rw [steps_dispatch, hready, List.filterMap_append, lines_clearsOf, List.append_nil,
    List.filter_append, List.filter_singleton]
  simp [stepOf, hne, dispatch]

theorem view_sleep_walk {w : Walker} (hw : w.run = run) (s : Sequencer) (due : Nat) :
    (s.sleep (.walk w) due).view run =
      { s.view run with asleep := (s.view run).asleep ++ [((w.script, w.rest), due)] } := by
  unfold view sleep
  simp only [List.filterMap_append, List.filterMap_cons, List.filterMap_nil, Sleeper.line?,
    Work.line?, hw]
  rfl

theorem view_sleep_of_none {work : Work} (h : work.line? run = none) (s : Sequencer) (due : Nat) :
    (s.sleep work due).view run = s.view run := by
  unfold view sleep
  simp only [List.filterMap_append, List.filterMap_cons, List.filterMap_nil, Sleeper.line?, h,
    Option.map_none, List.append_nil]
  rfl

theorem view_yield_of_none {work : Work} (h : work.line? run = none) (s : Sequencer) :
    (s.yield work).view run = s.view run := by
  unfold view yield
  simp only [List.filterMap_cons, Ready.line?, h, Option.map_none]
  rfl

theorem view_spawn_walk {w : Walker} (hw : w.run = run) (s : Sequencer) :
    (s.spawn (.walk w)).view run =
      { s.view run with ready := (s.view run).ready ++ [((w.script, w.rest), none)] } := by
  unfold view spawn
  simp only [List.filterMap_append, List.filterMap_cons, List.filterMap_nil, Ready.line?,
    Work.line?, hw]
  rfl

@[simp] theorem view_enter (s : Sequencer) (epoch : Nat) (run : Stamp) :
    (s.enter epoch).view run = s.view run := by
  unfold enter
  split <;> rfl

@[simp] theorem view_leave (s : Sequencer) (epoch : Nat) (run : Stamp) :
    (s.leave epoch).view run = s.view run := by
  unfold leave
  split <;> rfl

@[simp] theorem view_fire (s : Sequencer) (c : Clear) (run : Stamp) :
    (s.fire c).view run = s.view run := by
  unfold view runSteps
  rw [steps_fire]
  rfl

/-- The turn of another task. -/
theorem view_turn_of_none {t : Ready} (ht : t.work.line? run = none) (s : Sequencer)
    (dueFirst : Bool) : (s.turn dueFirst t).view run = s.view run := by
  unfold turn
  split
  · rename_i w hw
    have hne : w.run ≠ run := by simpa [hw, Work.line?] using ht
    -- whatever it has left, the walker stays one of another run
    have hline (rest : List Action) : (Work.walk { w with rest }).line? run = none := by
      simp [Work.line?, hne]
    cases live : s.isCancelled (.walk w) with
    | true => rw [walkerTurn_of_cancelled live, view_leave]
    | false =>
        refine walkerTurn_induction (P := fun s' _ => s'.view run = s.view run)
          (Q := fun s' => s'.view run = s.view run) ?_ ?_ ?_ ?_ live rfl ?_ ?_
        · intro s' a _ _ h
          rw [view_dispatch_of_ne hne]
          exact h
        · intro s' h
          rw [view_leave]
          exact h
        · intro s' a rest _ h
          rw [view_sleep_of_none (hline _)]
          exact h
        · intro s' a rest _ h
          rw [view_yield_of_none (hline _)]
          exact h
        · intro a _ _ _ _ _
          exact view_dispatch_of_ne hne s _ a
        · intro d _ _
          exact view_sleep_of_none (hline w.rest) s d
  · rename_i c _
    rcases clearTurn_cases dueFirst s c t.due with ⟨h, -⟩ | ⟨h, -⟩ | ⟨-, -, h⟩ <;> rw [h]
    · exact view_fire s c run
    · exact view_sleep_of_none rfl s _

end Tasks

/-! ## Calls and the clock -/

/-- What is asked from outside leaves a run alone if it still goes on then. -/
theorem view_call {s : Sequencer} {run : Stamp} (hle : run ≤ s.runs.lastRun) {c : Call}
    (hcurrent : (s.call c).2.current = some run) : (s.call c).2.view run = s.view run := by
  obtain ⟨pointer, bounds, program, heq⟩ := call_of_current hle hcurrent
  rw [heq]
  rfl

/-- Sleepers of which none is due earlier wake in the order in which they fell asleep. -/
theorem dueBy_of_le {s : Sequencer} {time : Nat} (h : ∀ t ∈ s.asleep, time ≤ t.due) :
    s.dueBy time = s.asleep.filter fun t => decide (t.due ≤ time) := by
  refine List.mergeSort_of_pairwise ?_
  rw [List.pairwise_iff_forall_sublist]
  intro a b hab
  have ha := hab.subset List.mem_cons_self
  have hb := hab.subset (List.mem_cons_of_mem a List.mem_cons_self)
  have hle : a.due ≤ time := by simpa using List.of_mem_filter ha
  exact decide_eq_true (Nat.le_trans hle (h b (List.mem_of_mem_filter hb)))

theorem asleep_lines_filter (l : List Sleeper) (run : Stamp) (p : Nat → Bool) :
    (l.filter fun t => p t.due).filterMap (Sleeper.line? run) =
      (l.filterMap (Sleeper.line? run)).filter fun line => p line.2 := by
  induction l with
  | nil => rfl
  | cons t l ih =>
      have hdue : ∀ line, t.line? run = some line → line.2 = t.due := by
        intro line hline
        obtain ⟨_, -, rfl⟩ := Option.map_eq_some_iff.mp hline
        rfl
      rw [List.filter_cons, List.filterMap_cons]
      cases hp : p t.due <;> cases hline : t.line? run <;>
        simp [hline, ih, hp, hdue]

/-- When time passes up to an instant before which no sleeper is due, the walkers that are due then
get ready in their order, and the others sleep on. -/
theorem view_wakeAt {s : Sequencer} {time : Nat} (h : ∀ t ∈ s.asleep, time ≤ t.due) (run : Stamp) :
    (s.wakeAt time).view run =
      { s.view run with
        ready := (s.view run).ready ++
          ((s.view run).asleep.filter fun line => decide (line.2 ≤ time)).map
            fun line => (line.1, some line.2)
        asleep := (s.view run).asleep.filter fun line => !decide (line.2 ≤ time) } := by
  have hwoken (l : List Sleeper) : (l.map Sleeper.woken).filterMap (Ready.line? run) =
      (l.filterMap (Sleeper.line? run)).map fun line => (line.1, some line.2) := by
    rw [List.filterMap_map, List.map_filterMap]
    congr 1
    funext t
    show (t.work.line? run).map _ = ((t.work.line? run).map _).map _
    cases t.work.line? run <;> rfl
  have hready := s.wakeAt_ready time
  rw [dueBy_of_le h] at hready
  unfold view
  rw [hready, wakeAt_asleep, List.filterMap_append, hwoken,
    asleep_lines_filter _ run fun due => decide (due ≤ time),
    asleep_lines_filter _ run fun due => !decide (due ≤ time)]
  rfl

theorem view_rejoin {s : Sequencer} {run : Stamp} (h : (s.view run).yielded = []) :
    s.rejoin.view run = s.view run := by
  have hyielded : s.yielded.filterMap (Ready.line? run) = [] := h
  unfold view rejoin
  rw [List.filterMap_append, hyielded, List.append_nil]
  rfl

/-! ## The turns of the walkers of a run -/

theorem walk_of_delay {s : Sequencer} (hdelay : s.stepTime ≠ 0) (w : Walker) (left : Nat)
    (a : Action) (rest : List Action) :
    s.walk w left (a :: rest) =
      s.sleep (.walk { w with rest := a :: rest }) (s.now + s.stepTime) := by
  unfold walk
  exact if_pos hdelay

/-- A walker that had no turn yet falls asleep for its first step. -/
theorem walkerTurn_none {s : Sequencer} {w : Walker} (hlive : s.isCancelled (.walk w) = false)
    (hdelay : s.stepTime ≠ 0) (hrest : w.rest ≠ []) :
    s.walkerTurn w none = s.sleep (.walk w) (s.now + s.stepTime) := by
  have hlive : ¬ s.runs.scopes.isCancelled w.scope = true := by
    simpa [isCancelled, Work.scope] using hlive
  unfold walkerTurn
  rw [if_neg hlive]
  obtain ⟨a, rest, hcons⟩ := List.exists_cons_of_ne_nil hrest
  show s.walk w stepsPerTurn w.rest = _
  rw [hcons, walk_of_delay hdelay, ← hcons]

/-- A walker that is due executes a step, and falls asleep for the next one or ends. -/
theorem walkerTurn_due {s : Sequencer} {w : Walker} {due : Nat} {a : Action} {rest : List Action}
    (hlive : s.isCancelled (.walk w) = false) (hdelay : s.stepTime ≠ 0) (hrest : w.rest = a :: rest)
    (hdue : due ≤ s.now) :
    s.walkerTurn w (some due) =
      if rest = [] then (s.dispatch w.run w.script a).leave w.epoch
      else (s.dispatch w.run w.script a).sleep (.walk { w with rest }) (s.now + s.stepTime) := by
  have hlive : ¬ s.runs.scopes.isCancelled w.scope = true := by
    simpa [isCancelled, Work.scope] using hlive
  unfold walkerTurn
  rw [if_neg hlive, hrest]
  dsimp only
  rw [if_pos hdue]
  cases rest with
  | nil => rfl
  | cons b rest =>
      have hdelay : (s.dispatch w.run w.script a).stepTime ≠ 0 := hdelay
      rw [if_neg (List.cons_ne_nil b rest)]
      exact walk_of_delay hdelay w _ b rest

end Sequencer

end SpriteStage
