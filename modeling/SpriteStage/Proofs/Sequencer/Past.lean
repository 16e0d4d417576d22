import SpriteStage.Sequencer.Schedule

/-!
# After a past

Runs, epochs and scopes are numbered in the order in which they come. After a past in which some were
begun, the next ones get higher numbers, each by how many came before it; the scopes of the past that
were cancelled stay cancelled, and the past stays in the journal. Here is what each kind of data looks
like after a past. Nothing that looks at the numbers can tell the difference, since it only compares
them with each other.
-/

namespace SpriteStage

structure Past where
  /-- The number of runs that were started. -/
  runs : Nat
  /-- The number of sessions that are over. -/
  epochs : Nat
  scopes : Scopes
  /-- Only scopes that were opened were cancelled. -/
  cancelled_lt : ∀ n ∈ scopes.cancelled, n < scopes.opened
  /-- How often observers were notified. -/
  changes : Nat
  journal : List Note

variable (p : Past)

/-! ## Scopes -/

def Scope.after (scope : Scope) : Scope :=
  ⟨p.scopes.opened + scope.number, scope.around.map (p.scopes.opened + ·)⟩

def Scopes.after (scopes : Scopes) : Scopes where
  opened := p.scopes.opened + scopes.opened
  cancelled := scopes.cancelled.map (p.scopes.opened + ·) ++ p.scopes.cancelled

namespace Past

/-- No scope after the past has the number of one that was cancelled in the past. -/
theorem not_mem_cancelled (n : Nat) : p.scopes.opened + n ∉ p.scopes.cancelled := by
  intro h
  have := p.cancelled_lt _ h
  omega

theorem contains_cancelled_after (scopes : Scopes) (n : Nat) :
    (scopes.after p).cancelled.contains (p.scopes.opened + n) = scopes.cancelled.contains n := by
  have hpast := p.not_mem_cancelled n
  simp [Scopes.after, hpast]

end Past

@[simp] theorem Scopes.isCancelled_after (scopes : Scopes) (scope : Scope) :
    (scopes.after p).isCancelled (scope.after p) = scopes.isCancelled scope := by
  unfold isCancelled
  have hnumber := p.contains_cancelled_after scopes scope.number
  rw [show (scope.after p).number = p.scopes.opened + scope.number from rfl, hnumber]
  cases haround : scope.around with
  | none => simp [Scope.after, haround]
  | some n =>
      have hn := p.contains_cancelled_after scopes n
      simp only [Scope.after, haround, Option.map_some, Option.any_some, hn]

/-- What is after the past is not cancelled by it. -/
@[simp] theorem Past.isCancelled_after (scope : Scope) :
    p.scopes.isCancelled (scope.after p) = false := by
  refine Scopes.isCancelled_eq_false_iff.mpr ⟨p.not_mem_cancelled scope.number, ?_⟩
  intro n hn haround
  obtain ⟨m, -, rfl⟩ := Option.map_eq_some_iff.mp haround
  exact p.not_mem_cancelled m hn

/-- What the past cancelled stays cancelled. -/
theorem Scopes.isCancelled_of_past {scope : Scope} (h : p.scopes.isCancelled scope = true)
    (scopes : Scopes) : (scopes.after p).isCancelled scope = true := by
  rw [isCancelled_iff] at h ⊢
  rcases h with h | ⟨n, hn, haround⟩
  · exact .inl (List.mem_append_right _ h)
  · exact .inr ⟨n, List.mem_append_right _ hn, haround⟩

/-! ## Runs -/

def ActiveRun.after (run : ActiveRun) : ActiveRun := ⟨p.runs + run.id, run.scope.after p⟩

def Runs.after (r : Runs) : Runs where
  scopes := r.scopes.after p
  session := r.session.after p
  epoch := p.epochs + r.epoch
  active := r.active.map (ActiveRun.after p)
  lastRun := p.runs + r.lastRun

namespace Runs

@[simp] theorem current_after (r : Runs) :
    (r.after p).current = r.current.map (p.runs + ·) := by
  unfold current after
  cases r.active <;> rfl

theorem cancelActive_after (r : Runs) : (r.after p).cancelActive = r.cancelActive.after p := by
  cases h : r.active with
  | none => simp only [cancelActive, after, h, Option.map_none]
  | some run =>
      simp only [cancelActive, after, h, Option.map_some, Option.map_none]
      rfl

theorem start_after (r : Runs) :
    (r.after p).start = (r.start.1.after p, r.start.2.after p) := by
  unfold start
  rw [cancelActive_after]
  rfl

end Runs

/-! ## Tasks -/

def Walker.after (w : Walker) : Walker :=
  { w with run := p.runs + w.run, scope := w.scope.after p, epoch := p.epochs + w.epoch }

def Clear.after (c : Clear) : Clear := { c with run := p.runs + c.run, scope := c.scope.after p }

def Work.after : Work → Work
  | .walk w => .walk (w.after p)
  | .clear c => .clear (c.after p)

def Ready.after (t : Ready) : Ready := { t with work := t.work.after p }

def Sleeper.after (t : Sleeper) : Sleeper := { t with work := t.work.after p }

@[simp] theorem Work.scope_after (work : Work) : (work.after p).scope = work.scope.after p := by
  cases work <;> rfl

theorem Effect.clears_after (e : Effect) (run : Stamp) (session : Scope) :
    e.clears (p.runs + run) (session.after p) = (e.clears run session).map (Clear.after p) := by
  unfold clears
  cases e.text.time? <;> cases e.animation.time? <;> rfl

/-! ## The store -/

def Store.after (store : Store) : Store :=
  { store with
    textOwner := store.textOwner.map (p.runs + ·)
    animationOwner := store.animationOwner.map (p.runs + ·)
    version := p.changes + store.version }

namespace Store

theorem owner_after_beq (owner : Option Stamp) (run : Stamp) :
    (owner.map (p.runs + ·) == some (p.runs + run)) = (owner == some run) := by
  cases owner with
  | none => rfl
  | some other =>
      rw [Bool.eq_iff_iff, beq_iff_eq, beq_iff_eq, Option.map_some, Option.some.injEq,
        Option.some.injEq]
      exact Nat.add_left_cancel_iff

@[simp] theorem owns_after (store : Store) (slot : Slot) (run : Stamp) :
    (store.after p).owns slot (p.runs + run) = store.owns slot run := by
  cases slot
  · exact owner_after_beq p store.textOwner run
  · exact owner_after_beq p store.animationOwner run

/-- After a past only runs that are after it own anything. -/
theorem exists_of_owns_after {p : Past} {store : Store} {slot : Slot} {run : Stamp}
    (h : (store.after p).owns slot run = true) :
    ∃ later, run = p.runs + later ∧ store.owns slot later = true := by
  have howner {owner : Option Stamp} (h : (owner.map (p.runs + ·) == some run) = true) :
      ∃ later, run = p.runs + later ∧ (owner == some later) = true := by
    obtain ⟨later, rfl, rfl⟩ := Option.map_eq_some_iff.mp (beq_iff_eq.mp h)
    exact ⟨later, rfl, beq_self_eq_true _⟩
  cases slot
  · exact howner h
  · exact howner h

theorem applyStep_after (store : Store) (run : Stamp) (m : Motion) (effect : Effect) :
    (store.after p).applyStep (p.runs + run) m effect = (store.applyStep run m effect).after p := by
  unfold applyStep after
  congr 1 <;> split <;> rfl

theorem clear_after (store : Store) (slot : Slot) (run : Stamp) :
    (store.after p).clear slot (p.runs + run) = (store.clear slot run).after p := by
  have howns := store.owns_after p slot run
  cases slot with
  | text =>
      simp only [owns] at howns
      simp only [clear, clearText, howns]
      split <;> rfl
  | animation =>
      simp only [owns] at howns
      simp only [clear, clearAnimation, howns]
      split <;> rfl

end Store

/-! ## The journal -/

def Step.after (step : Step) : Step := { step with run := p.runs + step.run }

def Note.after : Note → Note
  | .started time run event before => .started time (p.runs + run) event before
  | .executed step => .executed (step.after p)
  | .cleared time slot run owned => .cleared time slot (p.runs + run) owned
  | .undone time => .undone time
  | .reset time => .reset time

end SpriteStage
