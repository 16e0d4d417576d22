import SpriteStage.Program.Script
import SpriteStage.Sequencer.Runs

/-!
# Tasks

What goes on after a trigger: a walker takes the rest of a script step by step, and a clear resets
the bubble or the animation when its time is over. A task is ready for its next turn or asleep until
an instant. The clock counts milliseconds.
-/

namespace SpriteStage

/-- The walk along the rest of a script. -/
structure Walker where
  run : Stamp
  /-- The scope of the run. -/
  scope : Scope
  /-- The number of resets before the run. -/
  epoch : Nat
  /-- The place of the script among those of the run. -/
  script : Nat
  /-- The actions that are still to be executed. -/
  rest : List Action

/-- The timed reset of a slot. -/
structure Clear where
  slot : Slot
  /-- The run that wrote the slot. -/
  run : Stamp
  /-- The session in which the run wrote it. -/
  scope : Scope
  time : Duration

inductive Work where
  | walk (w : Walker)
  | clear (c : Clear)

def Work.scope : Work → Scope
  | .walk w => w.scope
  | .clear c => c.scope

structure Ready where
  work : Work
  /-- The instant until which it was to sleep, if it fell asleep before. -/
  due : Option Nat

structure Sleeper where
  work : Work
  due : Nat

def Sleeper.woken (t : Sleeper) : Ready := ⟨t.work, some t.due⟩

/-- More than the turns that a task and the clears of its steps may take before all of them sleep or
are done: each step may ask for two clears, and bring the walker one more turn. -/
def Work.weight : Work → Nat
  | .walk w => 3 * w.rest.length + 1
  | .clear _ => 1

def totalWeight : List Ready → Nat
  | [] => 0
  | t :: ts => t.work.weight + totalWeight ts

theorem totalWeight_append (ts us : List Ready) :
    totalWeight (ts ++ us) = totalWeight ts + totalWeight us := by
  induction ts with
  | nil => exact (Nat.zero_add _).symm
  | cons t ts ih =>
      simp only [List.cons_append, totalWeight, ih]
      omega

def Effect.clears (e : Effect) (run : Stamp) (session : Scope) : List Clear :=
  (e.text.time?.toList.map fun time => ⟨.text, run, session, time⟩) ++
    e.animation.time?.toList.map fun time => ⟨.animation, run, session, time⟩

theorem length_clears_le (e : Effect) (run : Stamp) (session : Scope) :
    (e.clears run session).length ≤ 2 := by
  unfold Effect.clears
  cases e.text.time? <;> cases e.animation.time? <;> simp

theorem mem_clears {e : Effect} {run : Stamp} {session : Scope} {c : Clear}
    (h : c ∈ e.clears run session) : c.run = run ∧ c.scope = session := by
  unfold Effect.clears at h
  rw [List.mem_append] at h
  rcases h with h | h <;>
    · obtain ⟨time, -, rfl⟩ := List.mem_map.mp h
      exact ⟨rfl, rfl⟩

end SpriteStage
