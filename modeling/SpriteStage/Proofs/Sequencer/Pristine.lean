import SpriteStage.Proofs.Sequencer.Finality

/-!
# An empty history

A run that goes on has the snapshot taken at its trigger on top of the history. So no run goes on
while the history is empty, and the sprite is as it was before anything happened: what was pushed
first was a snapshot of it. An undo cancels the current run before it looks for a snapshot, but
without a snapshot there is no run to cancel. `Founded.move` is the step lemma.
-/

namespace SpriteStage.Sequencer

variable {s : Sequencer}

/-! ## The snapshot of the current run -/

/-- The run that goes on was started by a call of the schedule, and the snapshot taken there is on top
of the history. -/
theorem history_of_current {s₀ : Sequencer} {ms : List Move} {run : Stamp}
    (h : (s₀.rebuilt.moves ms).current = some run) :
    ∃ before c after, ms = before ++ .call c :: after ∧
      ((s₀.rebuilt.moves before).call c).1 = .started (some run) ∧
      (s₀.rebuilt.moves ms).store.history =
        (s₀.rebuilt.moves before).store.snapshot :: (s₀.rebuilt.moves before).store.history := by
  induction ms using List.reverseRecOn with
  | nil => cases h
  | append_singleton ms m ih =>
      rw [moves_append, moves_cons, moves_nil] at h ⊢
      rcases current_move_cases h with ⟨hcurrent, hhistory⟩ | ⟨c, rfl, hstarted⟩
      · obtain ⟨before, c, after, heq, hstarted, htop⟩ := ih hcurrent
        refine ⟨before, c, after ++ [m], ?_, hstarted, hhistory.trans htop⟩
        rw [heq, List.append_assoc, List.cons_append]
      · refine ⟨ms, c, [], rfl, hstarted, ?_⟩
        rw [history_move, stackMove_of_started hstarted]
        rfl

/-! ## The sprite below the history -/

/-- The oldest snapshot is one of the sprite before anything happened. Without a snapshot the sprite
is that one, and nothing is left that would change it. -/
structure Founded (s : Sequencer) : Prop where
  oldest : ∀ entry, s.store.history.getLast? = some entry → entry = Motion.initial.snapshot
  empty : s.store.history = [] → s.store.motion = Motion.initial ∧ s.Quiet

theorem stackMove_eq_clear {m : Move} (h : s.stackMove m = .clear) : m = .call .reset := by
  have hreply (r : Reply) (hr : r.stackMove s.store.snapshot = .clear) : False := by
    unfold Reply.stackMove at hr
    split at hr <;> cases hr
  cases m with
  | call c =>
      cases c with
      | start event => exact (hreply _ h).elim
      | run => exact (hreply _ h).elim
      | undo => exact (hreply _ h).elim
      | reset => rfl
      | _ => cases h
  | _ => cases h

namespace Founded

theorem rebuilt (s : Sequencer) : s.rebuilt.Founded := by
  refine ⟨?_, fun _ => ⟨rfl, rfl, rfl, rfl⟩⟩
  intro entry h
  cases h

theorem reset (s : Sequencer) : s.reset.Founded := by
  refine ⟨?_, fun _ => ⟨rfl, rfl, rfl, rfl⟩⟩
  intro entry h
  cases h

theorem push (h : s.Founded) {m : Move} (hm : s.stackMove m = .push s.store.snapshot) :
    (s.move m).Founded := by
  have hhistory := history_move s m
  rw [hm, StackMove.apply] at hhistory
  refine ⟨?_, ?_⟩ <;> rw [hhistory]
  · intro entry hentry
    rw [List.getLast?_cons] at hentry
    cases hlast : s.store.history.getLast? with
    | none =>
        -- the snapshot is the first one, of the sprite before anything happened
        rw [hlast] at hentry
        obtain rfl := Option.some.inj hentry
        obtain ⟨hmotion, -⟩ := h.empty (List.getLast?_eq_none_iff.mp hlast)
        exact congrArg Motion.snapshot hmotion
    | some oldest =>
        rw [hlast] at hentry
        obtain rfl := Option.some.inj hentry
        exact h.oldest _ hlast
  · intro hnil
    cases hnil

theorem undo (h : s.Founded) (hundo : s.undo.1 = true) : s.undo.2.Founded := by
  obtain ⟨entry, hhistory, hmotion, -, -⟩ := undo_of_true hundo
  have holdest := h.oldest
  rw [hhistory] at holdest
  refine ⟨?_, ?_⟩
  · intro last hlast
    refine holdest last ?_
    rw [List.getLast?_cons, hlast]
    rfl
  · intro hnil
    rw [hnil] at holdest
    refine ⟨?_, quiet_undo hundo⟩
    rw [hmotion, holdest entry rfl]
    rfl

/-- Every move keeps the sprite below the history. -/
theorem move (h : s.Founded) (hs : s.WellFormed) (m : Move) : (s.move m).Founded := by
  cases hm : s.stackMove m with
  | push entry =>
      obtain rfl := stackMove_eq_push hm
      exact h.push hm
  | pop =>
      obtain ⟨rfl, hundo⟩ := stackMove_eq_pop hm
      exact h.undo hundo
  | clear =>
      obtain rfl := stackMove_eq_clear hm
      exact reset s
  | keep =>
      have hhistory := history_move s m
      rw [hm, StackMove.apply] at hhistory
      refine ⟨?_, ?_⟩ <;> rw [hhistory]
      · exact h.oldest
      · intro hnil
        obtain ⟨hmotion, hquiet⟩ := h.empty hnil
        obtain ⟨hstore, hquiet⟩ := hquiet.move hs hm
        exact ⟨hstore ▸ hmotion, hquiet⟩

end Founded

theorem Reachable.founded (h : s.Reachable) : s.Founded := by
  induction h with
  | built s => exact .rebuilt s
  | move m hs ih => exact ih.move hs.wellFormed m

/-! ## Undo without a snapshot -/

/-- Cancelling the current run leaves a sequencer without one as it is. -/
theorem cancelCurrent_of_none (hs : s.WellFormed) (h : s.current = none) : s.cancelCurrent = s := by
  have hactive : s.runs.active = none := Option.map_eq_none_iff.mp h
  have hruns : s.runs.cancelActive = s.runs := by
    unfold Runs.cancelActive
    rw [hactive]
  -- nobody sleeps who was cancelled before
  have hasleep : s.asleep.filter (fun t => s.isCancelled t.work) = [] := by
    rw [List.filter_eq_nil_iff]
    intro t ht
    rw [hs.awake t ht]
    exact Bool.false_ne_true
  have hawake : s.asleep.filter (fun t => !s.isCancelled t.work) = s.asleep := by
    rw [List.filter_eq_self]
    intro t ht
    rw [hs.awake t ht]
    rfl
  unfold cancelCurrent
  rw [hruns]
  show s.wakeCancelled = s
  rw [wakeCancelled_eq, hasleep, hawake, List.map_nil, List.append_nil]

/-- Nothing was done, or all that was done is undone: what is left of the runs before changes nothing
any more. -/
structure Pristine (s : Sequencer) : Prop where
  current : s.current = none
  motion : s.store.motion = Motion.initial
  /-- The tasks that are there belong to the runs up to now. -/
  pending : ∀ t ∈ s.tasks, t.work.run ≤ s.runs.lastRun
  /-- Whatever is done later, no turn of a task of these runs changes anything of the store. -/
  spent : ∀ ms place dueFirst t, (s.moves ms).ready[place]? = some t →
    t.work.run ≤ s.runs.lastRun →
    ((s.moves ms).turnAt place dueFirst).store = (s.moves ms).store
  /-- Nothing at all changes the store before the next run or reset. -/
  stays : ∀ ms, (∀ m ∈ s.stackMoves ms, m = .keep) → (s.moves ms).store = s.store

theorem Quiet.pristine (h : s.Quiet) (hs : s.WellFormed) (hmotion : s.store.motion = Motion.initial) :
    s.Pristine := by
  refine ⟨h.current, hmotion, ?_, ?_, fun ms hms => h.moves_store hs hms⟩
  · intro t ht
    exact (hs.fits t ht).run_le_lastRun
  · intro ms place dueFirst t ht hrun
    exact h.turnAt_spent hs ms ht hrun dueFirst

/-- What the history tells after a schedule. -/
structure RestsOnHistory (s₀ : Sequencer) (ms : List Move) : Prop where
  /-- While a run goes on, the snapshot taken when it was started is on top. -/
  top : ∀ run, (s₀.rebuilt.moves ms).current = some run →
    ∃ before c after, ms = before ++ .call c :: after ∧
      ((s₀.rebuilt.moves before).call c).1 = .started (some run) ∧
      (s₀.rebuilt.moves ms).store.history =
        (s₀.rebuilt.moves before).store.snapshot :: (s₀.rebuilt.moves before).store.history
  empty : (s₀.rebuilt.moves ms).store.history = [] → (s₀.rebuilt.moves ms).Pristine
  /-- An undo that fails changes nothing at all. -/
  undo : (s₀.rebuilt.moves ms).undo.1 = false →
    (s₀.rebuilt.moves ms).store.history = [] ∧
      (s₀.rebuilt.moves ms).undo.2 = s₀.rebuilt.moves ms

theorem rests_on_history (s₀ : Sequencer) (ms : List Move) : RestsOnHistory s₀ ms := by
  have hreachable : (s₀.rebuilt.moves ms).Reachable := (Reachable.built s₀).moves ms
  have hs := hreachable.wellFormed
  refine ⟨fun run h => history_of_current h, ?_, ?_⟩
  · intro hnil
    obtain ⟨hmotion, hquiet⟩ := hreachable.founded.empty hnil
    exact hquiet.pristine hs hmotion
  · intro hundo
    rcases undo_cases (s₀.rebuilt.moves ms) with ⟨hnil, heq⟩ | ⟨entry, older, -, heq⟩
    · obtain ⟨-, hquiet⟩ := hreachable.founded.empty hnil
      rw [heq]
      exact ⟨hnil, cancelCurrent_of_none hs hquiet.current⟩
    · rw [heq] at hundo
      cases hundo

/-- Both runs are undone, with the walker of the second one and both clears left. -/
theorem rests_on_history_spoken :
    ((threeActions 5).rebuilt.moves (spoken ++ [.call .undo, .call .undo])).tasks.map
        (fun t => t.work.run) = [2, 1, 2] ∧
      ((threeActions 5).rebuilt.moves (spoken ++ [.call .undo, .call .undo])).undo.1 = false ∧
      RestsOnHistory (threeActions 5) (spoken ++ [.call .undo, .call .undo]) :=
  ⟨by decide +kernel, by decide +kernel, rests_on_history _ _⟩

end SpriteStage.Sequencer
