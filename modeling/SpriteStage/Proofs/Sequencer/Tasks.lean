import Mathlib.Data.List.Perm.Basic
import SpriteStage.Sequencer.Schedule

/-!
# The tasks of a sequencer

The queue, the tasks that yielded and those that sleep, as one list. Each operation takes a task out
of the list, puts tasks into it, or only moves tasks between its three parts; of the latter the
lemmas say that the lists before and after are permutations of each other.
-/

namespace SpriteStage.Sequencer

/-- The tasks that did not end, each with the instant until which it sleeps or slept. -/
def tasks (s : Sequencer) : List Ready := s.ready ++ s.yielded ++ s.asleep.map Sleeper.woken

/-- While no task is ready, all tasks sleep. -/
theorem tasks_eq_asleep {s : Sequencer} (hready : s.ready = []) (hyielded : s.yielded = []) :
    s.tasks = s.asleep.map Sleeper.woken := by
  unfold tasks
  rw [hready, hyielded, List.nil_append, List.nil_append]

theorem mem_tasks_of_asleep {s : Sequencer} {t : Sleeper} (h : t ∈ s.asleep) :
    t.woken ∈ s.tasks :=
  List.mem_append_right _ (List.mem_map_of_mem h)

/-! ## Operations that leave the tasks alone -/

@[simp] theorem tasks_enter (s : Sequencer) (epoch : Nat) : (s.enter epoch).tasks = s.tasks := by
  unfold enter
  split <;> rfl

@[simp] theorem tasks_leave (s : Sequencer) (epoch : Nat) : (s.leave epoch).tasks = s.tasks := by
  unfold leave
  split <;> rfl

/-! ## Operations that add tasks -/

theorem tasks_spawn_perm (s : Sequencer) (work : Work) :
    (s.spawn work).tasks.Perm (⟨work, none⟩ :: s.tasks) := by
  simp only [tasks, spawn, List.append_assoc, List.singleton_append]
  exact List.perm_middle

theorem tasks_yield_perm (s : Sequencer) (work : Work) :
    (s.yield work).tasks.Perm (⟨work, none⟩ :: s.tasks) := by
  simp only [tasks, yield, List.append_assoc, List.cons_append]
  exact List.perm_middle

theorem tasks_sleep_perm (s : Sequencer) (work : Work) (due : Nat) :
    (s.sleep work due).tasks.Perm (⟨work, some due⟩ :: s.tasks) := by
  simp only [tasks, sleep, List.map_append, List.map_cons, List.map_nil, Sleeper.woken,
    ← List.append_assoc]
  exact List.perm_append_singleton _ _

/-- The clears that an action asks for, as tasks that had no turn yet. -/
def clearsOf (s : Sequencer) (run : Stamp) (a : Action) : List Ready :=
  ((s.outcome a).effect.clears run s.runs.session).map fun c => ⟨.clear c, none⟩

theorem mem_clearsOf {s : Sequencer} {run : Stamp} {a : Action} {t : Ready}
    (h : t ∈ s.clearsOf run a) :
    ∃ c, t = ⟨.clear c, none⟩ ∧ c.run = run ∧ c.scope = s.runs.session := by
  obtain ⟨c, hc, rfl⟩ := List.mem_map.mp h
  exact ⟨c, rfl, mem_clears hc⟩

theorem tasks_dispatch_perm (s : Sequencer) (run : Stamp) (script : Nat) (a : Action) :
    (s.dispatch run script a).tasks.Perm (s.clearsOf run a ++ s.tasks) := by
  simp only [tasks, dispatch, clearsOf]
  rw [← List.append_assoc, ← List.append_assoc]
  exact (List.perm_append_comm.append_right _).append_right _

/-! ## Operations that move tasks -/

theorem woken_partition_perm (p : Sleeper → Bool) (l : List Sleeper) :
    ((l.filter p).map Sleeper.woken ++ (l.filter (!p ·)).map Sleeper.woken).Perm
      (l.map Sleeper.woken) := by
  rw [← List.map_append]
  exact (List.filter_append_perm p l).map _

/-- Sleepers that are woken, in whatever order, stay tasks. -/
theorem tasks_wake_perm {s s' : Sequencer} {p : Sleeper → Bool} {woken : List Sleeper}
    (hwoken : woken.Perm (s.asleep.filter p))
    (hready : s'.ready = s.ready ++ woken.map Sleeper.woken) (hyielded : s'.yielded = s.yielded)
    (hasleep : s'.asleep = s.asleep.filter (!p ·)) : s'.tasks.Perm s.tasks := by
  simp only [tasks, hready, hyielded, hasleep, List.append_assoc]
  refine List.Perm.append_left _ ?_
  rw [← List.append_assoc]
  refine (List.perm_append_comm.append_right _).trans ?_
  rw [List.append_assoc]
  refine List.Perm.append_left _ ?_
  exact ((hwoken.map _).append_right _).trans (woken_partition_perm p s.asleep)

theorem wakeCancelled_eq (s : Sequencer) :
    s.wakeCancelled = { s with
      ready := s.ready ++ (s.asleep.filter fun t => s.isCancelled t.work).map Sleeper.woken
      asleep := s.asleep.filter fun t => !s.isCancelled t.work } := by
  simp only [wakeCancelled, List.partition_eq_filter_filter]
  rfl

theorem wakeCancelled_ready (s : Sequencer) :
    s.wakeCancelled.ready =
      s.ready ++ (s.asleep.filter fun t => s.isCancelled t.work).map Sleeper.woken := by
  rw [wakeCancelled_eq]

theorem wakeCancelled_asleep (s : Sequencer) :
    s.wakeCancelled.asleep = s.asleep.filter fun t => !s.isCancelled t.work := by
  rw [wakeCancelled_eq]

theorem tasks_wakeCancelled_perm (s : Sequencer) : s.wakeCancelled.tasks.Perm s.tasks :=
  tasks_wake_perm (List.Perm.refl _) s.wakeCancelled_ready rfl s.wakeCancelled_asleep

theorem tasks_reset_perm (s : Sequencer) : s.reset.tasks.Perm s.tasks :=
  tasks_wakeCancelled_perm _

/-- The sleepers that are due at a time, in the order in which they wake. -/
def dueBy (s : Sequencer) (time : Nat) : List Sleeper :=
  (s.asleep.filter fun t => decide (t.due ≤ time)).mergeSort fun a b => a.due ≤ b.due

theorem wakeAt_eq (s : Sequencer) (time : Nat) :
    s.wakeAt time = { s with
      now := time
      ready := s.ready ++ (s.dueBy time).map Sleeper.woken
      asleep := s.asleep.filter fun t => !decide (t.due ≤ time) } := by
  simp only [wakeAt, dueBy, List.partition_eq_filter_filter]
  rfl

theorem wakeAt_ready (s : Sequencer) (time : Nat) :
    (s.wakeAt time).ready = s.ready ++ (s.dueBy time).map Sleeper.woken := by
  rw [wakeAt_eq]

theorem wakeAt_asleep (s : Sequencer) (time : Nat) :
    (s.wakeAt time).asleep = s.asleep.filter fun t => !decide (t.due ≤ time) := by
  rw [wakeAt_eq]

theorem tasks_wakeAt_perm (s : Sequencer) (time : Nat) : (s.wakeAt time).tasks.Perm s.tasks :=
  tasks_wake_perm (List.mergeSort_perm _ _) (s.wakeAt_ready time) rfl (s.wakeAt_asleep time)

theorem tasks_rejoin_perm (s : Sequencer) : s.rejoin.tasks.Perm s.tasks := by
  simp only [tasks, rejoin, List.append_nil]
  exact List.Perm.refl _

def without (s : Sequencer) (place : Nat) : Sequencer :=
  { s with ready := s.ready.eraseIdx place }

theorem turnAt_of_none {s : Sequencer} {place : Nat} {dueFirst : Bool}
    (h : s.ready[place]? = none) : s.turnAt place dueFirst = s := by
  simp only [turnAt, h]

theorem turnAt_of_some {s : Sequencer} {place : Nat} {dueFirst : Bool} {t : Ready}
    (h : s.ready[place]? = some t) :
    s.turnAt place dueFirst = (s.without place).turn dueFirst t := by
  simp only [turnAt, h, without]

theorem turnAt_zero {s : Sequencer} {t : Ready} {rest : List Ready} (h : s.ready = t :: rest)
    (dueFirst : Bool) :
    s.turnAt 0 dueFirst = { s with ready := rest }.turn dueFirst t := by
  rw [turnAt, h]
  rfl

theorem tasks_without_perm {s : Sequencer} {place : Nat} {t : Ready}
    (h : s.ready[place]? = some t) : s.tasks.Perm (t :: (s.without place).tasks) := by
  obtain ⟨hlt, rfl⟩ := List.getElem?_eq_some_iff.mp h
  simp only [tasks, without, List.append_assoc]
  exact ((List.getElem_cons_eraseIdx_perm hlt).symm.append_right _)

end SpriteStage.Sequencer
