import SpriteStage.Sequencer.Basic

/-!
# Turns

A task that has its turn goes on until it sleeps, ends or has taken as many steps as a turn has. In
the last case it yields: it joins the queue again at the end of the round, and of several such tasks
the last one joins first. `settle` gives turns in the order of the queue until no task is ready; a
clear that is due when its session is over sees the end of the session first then.
`turn_now` says that no time passes in a turn, and `weight_turn` that turns come to an end: each
takes more weight from the tasks than it adds.
-/

namespace SpriteStage.Sequencer

/-- The steps that a walker takes in one turn at most. -/
def stepsPerTurn : Nat := 128

/-- Walks on: every action waits for the step delay first. Without a delay the walker goes on at
once and keeps its turn, for `left` steps. -/
def walk (s : Sequencer) (w : Walker) : (left : Nat) → List Action → Sequencer
  | _, [] => s.leave w.epoch
  | left, a :: rest =>
    if s.stepTime ≠ 0 then s.sleep (.walk { w with rest := a :: rest }) (s.now + s.stepTime)
    else
      match left with
      | 0 => s.yield (.walk { w with rest := a :: rest })
      | left + 1 => walk (s.dispatch w.run w.script a) w left rest

/-- A turn of a walker that slept until `due`, if it slept. It ends when its run was cancelled, even
when it is due. A step that the walker slept for is one of the turn's. -/
def walkerTurn (s : Sequencer) (w : Walker) (due : Option Nat) : Sequencer :=
  if s.runs.scopes.isCancelled w.scope then s.leave w.epoch
  else
    match due, w.rest with
    | some due, a :: rest =>
      if due ≤ s.now then (s.dispatch w.run w.script a).walk w (stepsPerTurn - 1) rest
      else s.sleep (.walk w) due
    | _, rest => s.walk w stepsPerTurn rest

/-- A turn of a clear that slept until `due`, if it slept. When it is due and its session is over,
either can be seen first: `dueFirst` says which. -/
def clearTurn (dueFirst : Bool) (s : Sequencer) (c : Clear) (due : Option Nat) : Sequencer :=
  let due := due.getD (s.now + s.sleepTime c.time)
  if s.runs.scopes.isCancelled c.scope && !(dueFirst && due ≤ s.now) then s
  else if due ≤ s.now then s.fire c
  else s.sleep (.clear c) due

def turn (dueFirst : Bool) (s : Sequencer) (t : Ready) : Sequencer :=
  match t.work with
  | .walk w => s.walkerTurn w t.due
  | .clear c => s.clearTurn dueFirst c t.due

/-! ## No time passes in a turn -/

@[simp] theorem dispatch_now (s : Sequencer) (run : Stamp) (script : Nat) (a : Action) :
    (s.dispatch run script a).now = s.now := rfl

@[simp] theorem sleep_now (s : Sequencer) (work : Work) (due : Nat) :
    (s.sleep work due).now = s.now := rfl

@[simp] theorem yield_now (s : Sequencer) (work : Work) : (s.yield work).now = s.now := rfl

@[simp] theorem leave_now (s : Sequencer) (epoch : Nat) : (s.leave epoch).now = s.now := by
  unfold leave
  split <;> rfl

@[simp] theorem fire_now (s : Sequencer) (c : Clear) : (s.fire c).now = s.now := rfl

@[simp] theorem walk_now (s : Sequencer) (w : Walker) (left : Nat) (rest : List Action) :
    (s.walk w left rest).now = s.now := by
  induction rest generalizing s left with
  | nil => simp [walk]
  | cons a rest ih =>
    unfold walk
    split
    · simp
    · split
      · simp
      · simp [ih]

@[simp] theorem walkerTurn_now (s : Sequencer) (w : Walker) (due : Option Nat) :
    (s.walkerTurn w due).now = s.now := by
  unfold walkerTurn
  split
  · simp
  · split
    · split <;> simp
    · simp

@[simp] theorem clearTurn_now (dueFirst : Bool) (s : Sequencer) (c : Clear) (due : Option Nat) :
    (s.clearTurn dueFirst c due).now = s.now := by
  unfold clearTurn
  dsimp only
  split
  · rfl
  · split <;> simp

@[simp] theorem turn_now (dueFirst : Bool) (s : Sequencer) (t : Ready) :
    (s.turn dueFirst t).now = s.now := by
  unfold turn
  split <;> simp

/-! ## Turns come to an end -/

def weight (s : Sequencer) : Nat := totalWeight (s.ready ++ s.yielded)

theorem weight_of_walk (w : Walker) : (Work.walk w).weight = 3 * w.rest.length + 1 := rfl

theorem weight_of_clear (c : Clear) : (Work.clear c).weight = 1 := rfl

theorem weight_clears (cs : List Clear) :
    totalWeight (cs.map fun c => (⟨.clear c, none⟩ : Ready)) = cs.length := by
  induction cs with
  | nil => rfl
  | cons c cs ih =>
    simp only [List.map_cons, totalWeight, List.length_cons, ih, weight_of_clear]
    omega

theorem weight_dispatch_le (s : Sequencer) (run : Stamp) (script : Nat) (a : Action) :
    (s.dispatch run script a).weight ≤ s.weight + 2 := by
  simp only [weight, dispatch, totalWeight_append, weight_clears]
  have := length_clears_le (s.outcome a).effect run s.runs.session
  omega

@[simp] theorem weight_sleep (s : Sequencer) (work : Work) (due : Nat) :
    (s.sleep work due).weight = s.weight := rfl

@[simp] theorem weight_yield (s : Sequencer) (work : Work) :
    (s.yield work).weight = s.weight + work.weight := by
  simp only [weight, yield, totalWeight_append, totalWeight]
  omega

@[simp] theorem weight_leave (s : Sequencer) (epoch : Nat) :
    (s.leave epoch).weight = s.weight := by
  unfold leave
  split <;> rfl

@[simp] theorem weight_fire (s : Sequencer) (c : Clear) : (s.fire c).weight = s.weight := rfl

/-- A walker that may take a step adds no more than three for each action that is left. -/
theorem weight_walk_le (s : Sequencer) (w : Walker) (left : Nat) (rest : List Action) :
    (s.walk w left rest).weight + min left 1 ≤ s.weight + 3 * rest.length + 1 := by
  induction rest generalizing s left with
  | nil => simp only [walk, weight_leave, List.length_nil]; omega
  | cons a rest ih =>
    unfold walk
    split
    · simp only [weight_sleep]; omega
    · split
      · simp only [weight_yield, weight_of_walk, List.length_cons]; omega
      · next left =>
        have h1 := ih (s.dispatch w.run w.script a) left
        have h2 := weight_dispatch_le s w.run w.script a
        simp only [List.length_cons]
        omega

theorem weight_walkerTurn_le (s : Sequencer) (w : Walker) (due : Option Nat) :
    (s.walkerTurn w due).weight ≤ s.weight + 3 * w.rest.length := by
  unfold walkerTurn
  split
  · simp
  · split
    · next a rest hr =>
      split
      · have h1 := weight_walk_le (s.dispatch w.run w.script a) w (stepsPerTurn - 1) rest
        have h2 := weight_dispatch_le s w.run w.script a
        simp only [hr, List.length_cons]
        omega
      · simp
    · have h := weight_walk_le s w stepsPerTurn w.rest
      have : min stepsPerTurn 1 = 1 := rfl
      omega

theorem weight_clearTurn_le (dueFirst : Bool) (s : Sequencer) (c : Clear) (due : Option Nat) :
    (s.clearTurn dueFirst c due).weight ≤ s.weight := by
  unfold clearTurn
  dsimp only
  split
  · exact Nat.le_refl _
  · split <;> simp

/-- A turn adds less than the task weighed. -/
theorem weight_turn (dueFirst : Bool) (s : Sequencer) (t : Ready) :
    (s.turn dueFirst t).weight < s.weight + t.work.weight := by
  unfold turn
  split
  · next w h =>
    have := weight_walkerTurn_le s w t.due
    rw [h, weight_of_walk]
    omega
  · next c h =>
    have := weight_clearTurn_le dueFirst s c t.due
    rw [h, weight_of_clear]
    omega

/-! ## Rounds -/

def turnsPerRound : Nat := 61

/-- Ends a round: the tasks that yielded join the queue again, the last one first. -/
def rejoin (s : Sequencer) : Sequencer := { s with ready := s.ready ++ s.yielded, yielded := [] }

@[simp] theorem rejoin_now (s : Sequencer) : s.rejoin.now = s.now := rfl

@[simp] theorem weight_rejoin (s : Sequencer) : s.rejoin.weight = s.weight := by
  simp [weight, rejoin]

/-- The sequencer before its next turn, and how many turns are left in the round then. -/
def nextRound (left : Nat) (s : Sequencer) : Sequencer × Nat :=
  if s.ready.isEmpty || left = 0 then (s.rejoin, turnsPerRound) else (s, left)

@[simp] theorem nextRound_now (left : Nat) (s : Sequencer) :
    (s.nextRound left).1.now = s.now := by
  unfold nextRound
  split <;> simp

@[simp] theorem weight_nextRound (left : Nat) (s : Sequencer) :
    (s.nextRound left).1.weight = s.weight := by
  unfold nextRound
  split <;> simp

/-- No task waits for the end of a round in which there is nothing else to do. -/
theorem yielded_of_nextRound {left : Nat} {s : Sequencer} (h : (s.nextRound left).1.ready = []) :
    (s.nextRound left).1.yielded = [] := by
  unfold nextRound at h ⊢
  split at h
  · next hc => rw [if_pos hc]; rfl
  · next hc =>
    simp only [Bool.or_eq_true, List.isEmpty_iff, decide_eq_true_eq, not_or] at hc
    exact absurd h hc.1

/-- Gives turns until no task is ready or yielded; `left` are left in the round. -/
def settleFrom (left : Nat) (s : Sequencer) : Sequencer :=
  match _hq : (s.nextRound left).1.ready with
  | [] => (s.nextRound left).1
  | t :: rest =>
    settleFrom ((s.nextRound left).2 - 1) ({ (s.nextRound left).1 with ready := rest }.turn false t)
termination_by s.weight
decreasing_by
  have hw := weight_turn false { (s.nextRound left).1 with ready := rest } t
  have hn := weight_nextRound left s
  simp only [weight, totalWeight_append] at hn
  simp only [weight, totalWeight_append] at hw ⊢
  rw [_hq, totalWeight] at hn
  omega

def settle (s : Sequencer) : Sequencer := s.settleFrom turnsPerRound

@[simp] theorem settleFrom_now (left : Nat) (s : Sequencer) :
    (s.settleFrom left).now = s.now := by
  fun_induction settleFrom left s with
  | case1 left s h => exact nextRound_now left s
  | case2 left s t rest h ih => rw [ih, turn_now]; exact nextRound_now left s

@[simp] theorem settle_now (s : Sequencer) : s.settle.now = s.now := settleFrom_now _ s

theorem settleFrom_idle (left : Nat) (s : Sequencer) :
    (s.settleFrom left).ready = [] ∧ (s.settleFrom left).yielded = [] := by
  fun_induction settleFrom left s with
  | case1 left s h => exact ⟨h, yielded_of_nextRound h⟩
  | case2 left s t rest h ih => exact ih

theorem settle_ready (s : Sequencer) : s.settle.ready = [] := (settleFrom_idle _ s).1

theorem settle_yielded (s : Sequencer) : s.settle.yielded = [] := (settleFrom_idle _ s).2

end SpriteStage.Sequencer
