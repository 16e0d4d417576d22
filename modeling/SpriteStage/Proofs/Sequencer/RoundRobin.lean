import SpriteStage.Proofs.Sequencer.Lines

/-!
# Round robin

The scripts of a run take turns: all heads at the trigger, and then, one step delay after the other,
the next action of each script that has one, in the order of the scripts. The walkers are tasks of
their own, with tasks of other runs between them. `InRound` is the invariant that ties their order in
the queue and in sleep to the rounds: those before some place of the round sleep for the next one, and
those from it on are ready.
-/

namespace SpriteStage

/-- The actions at the `k`-th place of scripts, the heads for `k = 0`, each with the place of its
script. Scripts that are shorter have none. -/
def roundOf (scripts : List Script) (k : Nat) : List (Nat × Action) :=
  scripts.zipIdx.filterMap fun script => script.1.actions[k]?.map fun a => (script.2, a)

def rounds (scripts : List Script) (start period count : Nat) : List (Nat × Nat × Action) :=
  (List.range count).flatMap fun k => (roundOf scripts k).map fun entry => (start + k * period, entry)

/-- Scripts that take turns: the rounds up to an instant. -/
def roundRobin (scripts : List Script) (start period stop : Nat) : List (Nat × Nat × Action) :=
  rounds scripts start period ((stop - start) / period + 1)

theorem rounds_succ (scripts : List Script) (start period count : Nat) :
    rounds scripts start period (count + 1) = rounds scripts start period count ++
      (roundOf scripts count).map fun entry => (start + count * period, entry) := by
  unfold rounds
  rw [List.range_succ, List.flatMap_append, List.flatMap_singleton]

/-! ## The fronts of the scripts -/

structure Front where
  place : Nat
  action : Action
  rest : List Action

namespace Front

def line (f : Front) : Line := (f.place, f.action :: f.rest)

def entry (time : Nat) (f : Front) : Nat × Nat × Action := (time, f.place, f.action)

def ofActions (place : Nat) : List Action → Option Front
  | [] => none
  | action :: rest => some ⟨place, action, rest⟩

def next? (f : Front) : Option Front := ofActions f.place f.rest

end Front

def frontsAt (scripts : List Script) (k : Nat) : List Front :=
  scripts.zipIdx.filterMap fun script => Front.ofActions script.2 (script.1.actions.drop k)

theorem ofActions_drop_succ (place : Nat) (actions : List Action) (k : Nat) :
    Front.ofActions place (actions.drop (k + 1)) =
      (Front.ofActions place (actions.drop k)).bind Front.next? := by
  rw [← List.drop_drop, List.drop_one]
  cases actions.drop k <;> rfl

theorem frontsAt_succ (scripts : List Script) (k : Nat) :
    frontsAt scripts (k + 1) = (frontsAt scripts k).filterMap Front.next? := by
  unfold frontsAt
  rw [List.filterMap_filterMap]
  simp only [ofActions_drop_succ]

theorem map_entry_frontsAt (scripts : List Script) (k time : Nat) :
    (frontsAt scripts k).map (Front.entry time) =
      (roundOf scripts k).map fun entry => (time, entry) := by
  unfold frontsAt roundOf
  rw [List.map_filterMap, List.map_filterMap]
  congr 1
  funext script
  rw [← List.head?_drop]
  cases script.1.actions.drop k <;> rfl

theorem frontsAt_of_nil {scripts : List Script} {k : Nat} (h : frontsAt scripts k = []) :
    ∀ j, frontsAt scripts (k + j) = [] := by
  intro j
  induction j with
  | zero => exact h
  | succ j ih => rw [← Nat.add_assoc, frontsAt_succ, ih, List.filterMap_nil]

/-- Rounds in which no script has anything left add nothing. -/
theorem rounds_of_nil {scripts : List Script} {start period count : Nat}
    (h : frontsAt scripts count = []) (more : Nat) :
    rounds scripts start period (count + more) = rounds scripts start period count := by
  induction more with
  | zero => rfl
  | succ more ih =>
      have hnone := map_entry_frontsAt scripts (count + more) (start + (count + more) * period)
      rw [frontsAt_of_nil h, List.map_nil] at hnone
      rw [← Nat.add_assoc, rounds_succ, ← hnone, ih, List.append_nil]

namespace RunView

/-- The walkers had no turn yet, or fell asleep for the first round: those of `before` sleep, and
those of `after` are ready. -/
structure Starting (v : RunView) (period now : Nat) (scripts : List Script) (start : Nat)
    (before after : List Front) : Prop where
  fronts : frontsAt scripts 1 = before ++ after
  ready : v.ready = after.map fun f => (f.line, none)
  yielded : v.yielded = []
  asleep : v.asleep = before.map fun f => (f.line, start + period)
  executed : v.executed = rounds scripts start period 1
  now_eq : now = start

/-- The walkers are in a round: those of `before` executed their actions and sleep for the next round
if there is something left for them, and those of `after` are ready. -/
structure InRound (v : RunView) (period now : Nat) (scripts : List Script) (start k : Nat)
    (before after : List Front) : Prop where
  fronts : frontsAt scripts k = before ++ after
  ready : v.ready = after.map fun f => (f.line, some (start + k * period))
  yielded : v.yielded = []
  asleep : v.asleep = (before.filterMap Front.next?).map fun f => (f.line, start + (k + 1) * period)
  executed : v.executed =
    rounds scripts start period k ++ before.map (Front.entry (start + k * period))
  reached : start + k * period ≤ now
  now_eq : after ≠ [] → now = start + k * period

def OnSchedule (v : RunView) (period now : Nat) (scripts : List Script) (start : Nat) : Prop :=
  (∃ before after, v.Starting period now scripts start before after) ∨
    ∃ k before after, v.InRound period now scripts start k before after

variable {v : RunView} {period now start k : Nat} {scripts : List Script}
  {before after : List Front}

theorem OnSchedule.yielded (h : v.OnSchedule period now scripts start) : v.yielded = [] := by
  rcases h with ⟨_, _, h⟩ | ⟨_, _, _, h⟩
  · exact h.yielded
  · exact h.yielded

/-! ## Turns -/

theorem Starting.turn {f : Front} (h : v.Starting period now scripts start before (f :: after)) :
    Starting
      { v with
        ready := after.map fun f => (f.line, none)
        asleep := v.asleep ++ [(f.line, now + period)] }
      period now scripts start (before ++ [f]) after := by
  refine ⟨?_, rfl, h.yielded, ?_, h.executed, h.now_eq⟩
  · rw [h.fronts, List.append_assoc, List.singleton_append]
  · show v.asleep ++ _ = _
    rw [h.asleep, h.now_eq, List.map_append]
    rfl

theorem InRound.turn {f : Front} (h : v.InRound period now scripts start k before (f :: after)) :
    InRound
      { v with
        ready := after.map fun f => (f.line, some (start + k * period))
        asleep := v.asleep ++ f.next?.toList.map fun f => (f.line, now + period)
        executed := v.executed ++ [f.entry now] }
      period now scripts start k (before ++ [f]) after := by
  have hnow := h.now_eq (List.cons_ne_nil f after)
  refine ⟨?_, rfl, h.yielded, ?_, ?_, h.reached, fun _ => hnow⟩
  · rw [h.fronts, List.append_assoc, List.singleton_append]
  · show v.asleep ++ _ = _
    rw [h.asleep, hnow, List.filterMap_append, List.map_append, Nat.succ_mul, Nat.add_assoc]
    cases hnext : f.next? <;> simp [hnext]
  · show v.executed ++ _ = _
    rw [h.executed, hnow, List.map_append, List.append_assoc, List.map_singleton]

/-! ## Time -/

/-- The trigger is round zero. -/
theorem Starting.inRound (h : v.Starting period now scripts start before []) :
    v.InRound period now scripts start 0 (frontsAt scripts 0) [] := by
  have hfronts := h.fronts
  rw [List.append_nil] at hfronts
  refine ⟨(List.append_nil _).symm, h.ready, h.yielded, ?_, ?_, ?_, fun hne => absurd rfl hne⟩
  · rw [h.asleep, ← frontsAt_succ, hfronts, Nat.zero_add, Nat.one_mul]
  · rw [h.executed, rounds_succ, map_entry_frontsAt]
  · simp only [h.now_eq, Nat.zero_mul, Nat.add_zero, Nat.le_refl]

/-- When a round is over, the sleeping walkers are those of the next one. -/
theorem InRound.asleep_eq (h : v.InRound period now scripts start k before []) :
    v.asleep = (frontsAt scripts (k + 1)).map fun f => (f.line, start + (k + 1) * period) := by
  have hfronts := h.fronts
  rw [List.append_nil] at hfronts
  rw [h.asleep, frontsAt_succ, hfronts]

/-- When a round is over, all rounds so far were executed. -/
theorem InRound.executed_eq (h : v.InRound period now scripts start k before []) :
    v.executed = rounds scripts start period (k + 1) := by
  have hfronts := h.fronts
  rw [List.append_nil] at hfronts
  rw [h.executed, rounds_succ, ← map_entry_frontsAt, hfronts]

theorem InRound.asleep_due (h : v.InRound period now scripts start k before []) {line : Line × Nat}
    (hline : line ∈ v.asleep) : line.2 = start + (k + 1) * period := by
  rw [h.asleep_eq] at hline
  obtain ⟨f, -, rfl⟩ := List.mem_map.mp hline
  rfl

/-- While no walker of a round is ready, time may pass. -/
theorem InRound.later {now' : Nat} (h : v.InRound period now scripts start k before [])
    (hnow : now ≤ now') : v.InRound period now' scripts start k before [] :=
  ⟨h.fronts, h.ready, h.yielded, h.asleep, h.executed, Nat.le_trans h.reached hnow,
    fun hne => absurd rfl hne⟩

/-- When no walker is ready, a round is over. -/
theorem OnSchedule.inRound (h : v.OnSchedule period now scripts start) (hready : v.ready = []) :
    ∃ k before, v.InRound period now scripts start k before [] := by
  rcases h with ⟨before, after, h⟩ | ⟨k, before, after, h⟩
  · have hafter := h.ready
    rw [hready] at hafter
    obtain rfl := List.map_eq_nil_iff.mp hafter.symm
    exact ⟨0, _, h.inRound⟩
  · have hafter := h.ready
    rw [hready] at hafter
    obtain rfl := List.map_eq_nil_iff.mp hafter.symm
    exact ⟨k, before, h⟩

/-- A round begins when its walkers wake. -/
theorem InRound.next (h : v.InRound period now scripts start k before []) :
    InRound
      { v with
        ready := v.asleep.map fun line => (line.1, some line.2)
        asleep := [] }
      period (start + (k + 1) * period) scripts start (k + 1) [] (frontsAt scripts (k + 1)) := by
  refine ⟨rfl, ?_, h.yielded, rfl, ?_, Nat.le_refl _, fun _ => rfl⟩
  · show v.asleep.map _ = _
    rw [h.asleep_eq, List.map_map]
    rfl
  · show v.executed = _
    rw [h.executed_eq, List.map_nil, List.append_nil]

end RunView

namespace Sequencer

/-- A run keeps to the rounds of its scripts from an instant on. -/
def OnSchedule (s : Sequencer) (run : Stamp) (scripts : List Script) (start : Nat) : Prop :=
  (s.view run).OnSchedule s.stepTime s.now scripts start

variable {s : Sequencer} {run : Stamp} {scripts : List Script} {start : Nat}

/-! ## Turns -/

theorem view_without {t : Ready} (ht : s.ready[0]? = some t) (run : Stamp) :
    (s.view run).ready = (t.line? run).toList ++ ((s.without 0).view run).ready ∧
      s.view run = { (s.without 0).view run with ready := (s.view run).ready } := by
  obtain ⟨hlt, hget⟩ := List.getElem?_eq_some_iff.mp ht
  have hready : s.ready = t :: (s.without 0).ready := by
    cases hs : s.ready with
    | nil =>
        rw [hs] at ht
        cases ht
    | cons u rest =>
        rw [hs] at ht
        cases ht
        simp [without, hs]
  refine ⟨?_, rfl⟩
  show s.ready.filterMap _ = _
  rw [hready, List.filterMap_cons]
  cases t.line? run <;> rfl

/-- A walker of the run that goes on was not cancelled. -/
theorem WellFormed.live {w : Walker} {due : Option Nat} (h : s.WellFormed)
    (hcurrent : s.current = some run) (hw : w.run = run) (ht : ⟨.walk w, due⟩ ∈ s.tasks) :
    s.isCancelled (.walk w) = false := by
  obtain ⟨active, hactive, hid⟩ := Option.map_eq_some_iff.mp hcurrent
  have hfits : w.Fits s.runs := h.fits _ ht
  have hscope := hfits.scope_eq active hactive (hid.trans hw.symm)
  show s.runs.scopes.isCancelled w.scope = false
  rw [← hscope]
  exact h.runs.active_isCancelled hactive

/-- The turn of a walker of the run that was first in the queue. -/
theorem onSchedule_walkerTurn {w : Walker} {due : Option Nat} (hw : w.run = run)
    (hlive : s.isCancelled (.walk w) = false) (hdelay : s.stepTime ≠ 0)
    (h : RunView.OnSchedule
      { s.view run with ready := ((w.script, w.rest), due) :: (s.view run).ready }
      s.stepTime s.now scripts start) :
    ((s.walkerTurn w due).view run).OnSchedule s.stepTime s.now scripts start := by
  rcases h with ⟨before, after, h⟩ | ⟨k, before, after, h⟩
  · -- the walker falls asleep for the first round
    left
    cases after with
    | nil => cases h.ready
    | cons f after =>
        have hready := h.ready
        rw [List.map_cons] at hready
        obtain ⟨hhead, htail⟩ := List.cons.inj hready
        obtain ⟨hline, rfl⟩ := Prod.mk.inj hhead
        have hrest : w.rest = f.action :: f.rest := congrArg Prod.snd hline
        have hturn := h.turn
        rw [walkerTurn_none hlive hdelay (by rw [hrest]; exact List.cons_ne_nil _ _),
          view_sleep_walk hw, hline]
        rw [← htail] at hturn
        exact ⟨before ++ [f], after, hturn⟩
  · -- the walker executes the action of this round
    right
    cases after with
    | nil => cases h.ready
    | cons f after =>
        have hready := h.ready
        rw [List.map_cons] at hready
        obtain ⟨hhead, htail⟩ := List.cons.inj hready
        obtain ⟨hline, rfl⟩ := Prod.mk.inj hhead
        have hscript : w.script = f.place := congrArg Prod.fst hline
        have hrest : w.rest = f.action :: f.rest := congrArg Prod.snd hline
        have hturn := h.turn
        have hdue : start + k * s.stepTime ≤ s.now := h.reached
        refine ⟨k, before ++ [f], after, ?_⟩
        rw [← htail] at hturn
        have hview : ((s.walkerTurn w (some (start + k * s.stepTime))).view run) =
            { s.view run with
              asleep := (s.view run).asleep ++
                f.next?.toList.map fun f => (f.line, s.now + s.stepTime)
              executed := (s.view run).executed ++ [f.entry s.now] } := by
          subst hw
          rw [walkerTurn_due hlive hdelay hrest hdue, hscript]
          cases hmore : f.rest with
          | nil =>
              have hnext : f.next? = none := by rw [Front.next?, hmore, Front.ofActions]
              rw [if_pos rfl, view_leave, view_dispatch_self, hnext]
              simp [Front.entry]
          | cons a rest =>
              have hnext : f.next? = some ⟨f.place, a, rest⟩ := by
                rw [Front.next?, hmore, Front.ofActions]
              rw [if_neg (List.cons_ne_nil a rest), view_sleep_walk rfl, view_dispatch_self, hnext]
              simp [Front.entry, Front.line]
        rw [hview]
        exact hturn

theorem OnSchedule.turn (h : s.OnSchedule run scripts start) (hs : s.WellFormed)
    (hcurrent : s.current = some run) (hdelay : s.stepTime ≠ 0) (dueFirst : Bool) :
    (s.turnAt 0 dueFirst).OnSchedule run scripts start := by
  have hframe := turnAt_frame s 0 dueFirst
  unfold OnSchedule at h ⊢
  rw [stepTime_of_frame hframe, now_of_frame hframe]
  cases ht : s.ready[0]? with
  | none =>
      rw [turnAt_of_none ht]
      exact h
  | some t =>
      obtain ⟨hready, hview⟩ := view_without ht run
      rw [turnAt_of_some ht]
      cases hline : t.work.line? run with
      | none =>
          have hsame : (s.without 0).view run = s.view run := by
            rw [hview, hready, Ready.line?, hline]
            rfl
          rw [view_turn_of_none hline, hsame]
          exact h
      | some line =>
          obtain ⟨work, due⟩ := t
          cases work with
          | clear c => cases hline
          | walk w =>
              have hw : w.run = run := by
                by_contra hne
                simp [Work.line?, hne] at hline
              have hlive := hs.live hcurrent hw ((tasks_without_perm ht).mem_iff.mpr List.mem_cons_self)
              have hline : (Ready.line? run ⟨.walk w, due⟩).toList = [((w.script, w.rest), due)] := by
                simp [Ready.line?, Work.line?, hw]
              rw [hview, hready, hline] at h
              exact onSchedule_walkerTurn hw hlive hdelay h

/-! ## Time -/

theorem mem_asleep_of_view {line : Line × Nat} (h : line ∈ (s.view run).asleep) :
    ∃ t ∈ s.asleep, t.due = line.2 := by
  obtain ⟨t, ht, hline⟩ := List.mem_filterMap.mp h
  obtain ⟨_, -, rfl⟩ := Option.map_eq_some_iff.mp hline
  exact ⟨t, ht, rfl⟩

theorem OnSchedule.pass (h : s.OnSchedule run scripts start) {ms : Nat}
    (hready : s.ready = []) (hdue : ∀ t ∈ s.asleep, s.now + ms ≤ t.due) :
    (s.wakeAt (s.now + ms)).OnSchedule run scripts start := by
  have hnone : (s.view run).ready = [] := by
    show s.ready.filterMap _ = []
    rw [hready, List.filterMap_nil]
  obtain ⟨k, before, h⟩ := RunView.OnSchedule.inRound h hnone
  have hview := view_wakeAt hdue run
  rw [hnone, List.nil_append] at hview
  have hlines (line : Line × Nat) (hline : line ∈ (s.view run).asleep) :
      line.2 = start + (k + 1) * s.stepTime ∧ s.now + ms ≤ line.2 := by
    obtain ⟨t, ht, heq⟩ := mem_asleep_of_view hline
    exact ⟨h.asleep_due hline, heq ▸ hdue t ht⟩
  have hnow : s.now ≤ s.now + ms := Nat.le_add_right _ _
  have htime := move_stepTime s (.pass ms)
  rw [move_pass] at htime
  unfold OnSchedule
  rw [htime, wakeAt_now, hview]
  right
  by_cases hwake : s.now + ms = start + (k + 1) * s.stepTime
  · -- all sleeping walkers of the run wake for the next round
    have hall : (s.view run).asleep.filter (fun line => decide (line.2 ≤ s.now + ms)) =
        (s.view run).asleep := by
      rw [List.filter_eq_self]
      intro line hline
      rw [(hlines line hline).1, hwake]
      exact decide_eq_true (Nat.le_refl _)
    have hnothing : (s.view run).asleep.filter (fun line => !decide (line.2 ≤ s.now + ms)) = [] := by
      rw [List.filter_eq_nil_iff]
      intro line hline
      rw [(hlines line hline).1, hwake]
      simp
    rw [hall, hnothing]
    refine ⟨k + 1, [], frontsAt scripts (k + 1), ?_⟩
    rw [hwake]
    exact h.next
  · -- they sleep on, if there are any
    have hall : (s.view run).asleep.filter (fun line => !decide (line.2 ≤ s.now + ms)) =
        (s.view run).asleep := by
      rw [List.filter_eq_self]
      intro line hline
      have := hlines line hline
      simp only [Bool.not_eq_true', decide_eq_false_iff_not]
      omega
    have hnothing : (s.view run).asleep.filter (fun line => decide (line.2 ≤ s.now + ms)) = [] := by
      rw [List.filter_eq_nil_iff]
      intro line hline
      have := hlines line hline
      simp only [decide_eq_true_eq]
      omega
    rw [hall, hnothing, List.map_nil]
    refine ⟨k, before, [], ?_⟩
    have hsame : { s.view run with ready := [] } = s.view run := by rw [← hnone]
    rw [hsame]
    exact h.later hnow

/-! ## The trigger -/

/-- What there is to see of a run that has no tasks and executed nothing. -/
theorem view_of_none (htasks : ∀ t ∈ s.tasks, t.work.line? run = none)
    (hsteps : ∀ step ∈ s.steps, step.run ≠ run) : s.view run = ⟨[], [], [], []⟩ := by
  have hready (l : List Ready) (hl : ∀ t ∈ l, t ∈ s.tasks) : l.filterMap (Ready.line? run) = [] := by
    rw [List.filterMap_eq_nil_iff]
    intro t ht
    rw [Ready.line?, htasks t (hl t ht)]
    rfl
  have hasleep : s.asleep.filterMap (Sleeper.line? run) = [] := by
    rw [List.filterMap_eq_nil_iff]
    intro t ht
    have hnone : t.work.line? run = none := htasks t.woken (mem_tasks_of_asleep ht)
    rw [Sleeper.line?, hnone]
    rfl
  have hexecuted : s.runSteps run = [] := by
    unfold runSteps
    rw [List.filter_eq_nil_iff]
    intro step hstep
    simpa using hsteps step hstep
  unfold view
  rw [hready s.ready, hready s.yielded, hasleep, hexecuted, List.map_nil]
  · intro t ht
    exact List.mem_append_left _ (List.mem_append_right _ ht)
  · intro t ht
    exact List.mem_append_left _ (List.mem_append_left _ ht)

/-- A run that is about to be opened has no tasks and executed nothing. -/
theorem view_openRun (hs : s.WellFormed) (event : Event) :
    (s.openRun event).2.view (s.runs.lastRun + 1) = ⟨[], [], [], []⟩ := by
  refine view_of_none ?_ ?_
  · intro t ht
    have ht := (tasks_openRun_perm s event).mem_iff.mp ht
    have hfits := hs.fits t ht
    cases hw : t.work with
    | clear c => rfl
    | walk w =>
        rw [hw] at hfits
        refine if_neg ?_
        intro hrun
        exact Nat.not_succ_le_self _ (hrun ▸ hfits.run_le)
  · intro step hstep hrun
    rw [steps_openRun] at hstep
    exact Nat.not_succ_le_self _ (hrun ▸ hs.steps step hstep)

theorem view_startScript (s : Sequencer) (active : ActiveRun) (epoch : Nat)
    (script : Script × Nat) :
    (s.startScript active epoch script).view active.id =
      { s.view active.id with
        ready := (s.view active.id).ready ++
          (Front.ofActions script.2 script.1.rest).toList.map fun f => (f.line, none)
        executed := (s.view active.id).executed ++ [(s.now, script.2, script.1.head)] } := by
  unfold startScript
  dsimp only
  cases hrest : script.1.rest with
  | nil =>
      rw [if_pos List.isEmpty_nil, view_dispatch_self]
      simp [Front.ofActions]
  | cons a rest =>
      rw [if_neg (by simp), view_spawn_walk rfl, view_enter, view_dispatch_self]
      rfl

/-- Each script that is started executes its head, and leaves the rest to a walker. -/
theorem view_startScripts (s : Sequencer) (active : ActiveRun) (epoch : Nat)
    (scripts : List Script) (place : Nat) :
    (s.startScripts active epoch scripts place).view active.id =
      { s.view active.id with
        ready := (s.view active.id).ready ++
          ((scripts.zipIdx place).filterMap fun script =>
            Front.ofActions script.2 script.1.rest).map fun f => (f.line, none)
        executed := (s.view active.id).executed ++
          (scripts.zipIdx place).map fun script => (s.now, script.2, script.1.head) } := by
  induction scripts generalizing s place with
  | nil => simp
  | cons script scripts ih =>
      have hnow := now_of_frame (startScript_frame s active epoch (script, place))
      rw [startScripts_cons, ih, view_startScript, hnow, List.zipIdx_cons, List.filterMap_cons,
        List.map_cons]
      cases Front.ofActions place script.rest <;> simp

/-- A run that is started keeps to the rounds of the scripts that the program had then. -/
theorem onSchedule_start (hs : s.WellFormed) {event : Event} (hstart : (s.start event).1 = some run) :
    (s.start event).2.OnSchedule run (s.program.scriptsFor event) s.now := by
  rcases start_cases s event with ⟨-, heq⟩ | ⟨-, heq⟩ <;> rw [heq] at hstart ⊢
  · cases hstart
  · obtain rfl := Option.some.inj hstart
    have hframe := startScripts_frame (s.openRun event).2 (s.openRun event).1
      (s.openRun event).2.runs.epoch (s.program.scriptsFor event) 0
    have hempty := view_openRun hs event
    have hview := view_startScripts (s.openRun event).2 (s.openRun event).1
      (s.openRun event).2.runs.epoch (s.program.scriptsFor event) 0
    rw [← openRun_id s event] at hempty ⊢
    rw [hempty] at hview
    unfold OnSchedule
    rw [hview, stepTime_of_frame hframe, now_of_frame hframe]
    left
    refine ⟨[], frontsAt (s.program.scriptsFor event) 1, (List.nil_append _).symm, ?_, rfl, rfl, ?_, rfl⟩
    · rw [List.nil_append]
      rfl
    · rw [List.nil_append]
      simp only [rounds, roundOf, Script.actions, List.range_one, List.flatMap_singleton, Nat.zero_mul,
        Nat.add_zero, List.getElem?_cons_zero, Option.map_some, List.map_filterMap]
      rw [← List.filterMap_eq_map]
      rfl

/-! ## Schedules -/

theorem OnSchedule.move (h : s.OnSchedule run scripts start) (hs : s.WellFormed)
    (hle : run ≤ s.runs.lastRun) (hdelay : s.stepTime ≠ 0) {m : Move} (hm : s.IsInTurn m)
    (hcurrent : s.current = some run) (hnext : (s.move m).current = some run) :
    (s.move m).OnSchedule run scripts start := by
  cases m with
  | call c =>
      have htime := move_stepTime s (.call c)
      unfold OnSchedule
      rw [htime, move_call, view_call hle hnext, (call_settings s c).2.2]
      exact h
  | turn place dueFirst =>
      obtain rfl : place = 0 := hm
      exact h.turn hs hcurrent hdelay dueFirst
  | pass ms => exact h.pass hm.1 hm.2.2
  | rejoin =>
      have hyielded := RunView.OnSchedule.yielded h
      unfold OnSchedule
      rw [move_rejoin, view_rejoin hyielded]
      exact h

/-- A schedule in turn keeps a run to the rounds as long as the run goes on. -/
theorem OnSchedule.moves (h : s.OnSchedule run scripts start) (hs : s.WellFormed)
    (hle : run ≤ s.runs.lastRun) (hdelay : s.stepTime ≠ 0) {ms : List Move} (hms : s.InTurn ms)
    (hcurrent : (s.moves ms).current = some run) : (s.moves ms).OnSchedule run scripts start := by
  induction ms generalizing s with
  | nil => exact h
  | cons m ms ih =>
      obtain ⟨hm, hms⟩ := hms
      -- a run that goes on in the end went on all the time
      have hnow : s.current = some run := current_of_moves hs hle hcurrent
      have hle' := Nat.le_trans hle (move_lastRun_le s m)
      have hnext := current_of_moves (hs.move m) hle' hcurrent
      exact ih (h.move hs hle hdelay hm hnow hnext) (hs.move m) hle' (by rwa [move_stepTime]) hms
        hcurrent

/-- While no task is ready, just the rounds up to now were executed. -/
theorem OnSchedule.executed_eq (h : s.OnSchedule run scripts start) (hs : s.WellFormed)
    (hdelay : s.stepTime ≠ 0) (hready : s.ready = []) :
    (s.runSteps run).map Step.entry = roundRobin scripts start s.stepTime s.now := by
  have hnone : (s.view run).ready = [] := by
    show s.ready.filterMap _ = []
    rw [hready, List.filterMap_nil]
  obtain ⟨k, before, h⟩ := RunView.OnSchedule.inRound h hnone
  have hexecuted : (s.runSteps run).map Step.entry = rounds scripts start s.stepTime (k + 1) :=
    h.executed_eq
  have hk : k ≤ (s.now - start) / s.stepTime := by
    rw [Nat.le_div_iff_mul_le (Nat.pos_of_ne_zero hdelay)]
    have := h.reached
    omega
  rw [hexecuted]
  unfold roundRobin
  by_cases hmore : frontsAt scripts (k + 1) = []
  · obtain ⟨more, hadd⟩ := Nat.exists_eq_add_of_le hk
    rw [hadd, Nat.add_right_comm, rounds_of_nil hmore]
  · -- a walker sleeps for the next round, which has not come
    obtain ⟨f, hf⟩ := List.exists_mem_of_ne_nil _ hmore
    have hline : (f.line, start + (k + 1) * s.stepTime) ∈ (s.view run).asleep := by
      rw [h.asleep_eq]
      exact List.mem_map_of_mem hf
    obtain ⟨t, ht, hdue⟩ := mem_asleep_of_view hline
    have hfuture := hs.due t ht
    rw [hdue] at hfuture
    have hlt : (s.now - start) / s.stepTime < k + 1 := by
      rw [Nat.div_lt_iff_lt_mul (Nat.pos_of_ne_zero hdelay)]
      have := h.reached
      omega
    rw [show (s.now - start) / s.stepTime = k by omega]

end Sequencer

end SpriteStage
