import SpriteStage.Proofs.Sequencer.Twins

/-!
# A reset forgets the past

After a reset a sequencer cannot be told from one that was built just now around the same program,
clock, random numbers, pointer and settings, except that its runs have higher numbers. What is left
over from before the reset may still have turns, and none of them changes what can be seen.
-/

namespace SpriteStage

structure Sight where
  motion : Motion
  history : List Snapshot
  isPlaying : Bool
  inFlight : Nat
  current : Option Stamp
  now : Nat

def Sight.after (runs : Nat) (sight : Sight) : Sight :=
  { sight with current := sight.current.map (runs + ·) }

/-- What is asked of a sequencer that then gives its tasks all the turns that they want, in the order
of the queue. -/
inductive Operation where
  | call (c : Call)
  | wait (ms : Nat)
  | waitIdle

namespace Sequencer

def sight (s : Sequencer) : Sight where
  motion := s.store.motion
  history := s.store.history
  isPlaying := s.isPlaying
  inFlight := s.inFlight
  current := s.current
  now := s.now

def perform (s : Sequencer) : Operation → Reply × Sequencer
  | .call c => ((s.call c).1, (s.call c).2.settle)
  | .wait ms => (.done, (s.wait ms).settle)
  | .waitIdle => (.done, s.waitIdle.settle)

/-- The replies to operations, each with what can be seen then. -/
def answers (s : Sequencer) : List Operation → List (Reply × Sight)
  | [] => []
  | op :: ops => ((s.perform op).1, (s.perform op).2.sight) :: (s.perform op).2.answers ops

/-- Pairs of sequencers that look the same and go on to look the same, but for the numbers of their
runs: whatever is asked of both, however time passes, and whichever task of either has its turn, as
long as the other gives a turn to the right task or to none. -/
structure Bisimulation (runs : Nat) (R : Sequencer → Sequencer → Prop) : Prop where
  sight : ∀ {s f}, R s f → s.sight = f.sight.after runs
  call : ∀ {s f}, R s f → ∀ c, (s.call c).1 = (f.call c).1.after runs ∧ R (s.call c).2 (f.call c).2
  pass : ∀ {s f}, R s f → ∀ ms, R (s.move (.pass ms)) (f.move (.pass ms))
  rejoin : ∀ {s f}, R s f → R s.rejoin f.rejoin
  turn : ∀ {s f}, R s f → ∀ place dueFirst,
    ∃ place', R (s.turnAt place dueFirst) (f.turnAt place' dueFirst)
  turn_back : ∀ {s f}, R s f → ∀ place dueFirst,
    ∃ place', R (s.turnAt place' dueFirst) (f.turnAt place dueFirst)

/-- Two sequencers look the same in whatever order things happen. -/
def LooksLike (runs : Nat) (s f : Sequencer) : Prop := ∃ R, Bisimulation runs R ∧ R s f

/-- What a reset does for what comes after it. -/
structure ForgetsPast (s : Sequencer) : Prop where
  /-- In whatever order the tasks have their turns, left over or not. -/
  looksLike : LooksLike s.runs.lastRun s.reset s.rebuilt
  /-- In the order of the queue, when what is left over had its turn. -/
  settled : ∀ ops, s.reset.settle.answers ops =
    (s.rebuilt.answers ops).map fun a => (a.1.after s.runs.lastRun, a.2.after s.runs.lastRun)
  /-- In the order of the queue, when what is left over is still queued. Without a delay it takes turns
  of the first round, and walkers that yield may join the queue in another order. -/
  unsettled : s.stepTime ≠ 0 → ∀ ops, s.reset.answers ops =
    (s.rebuilt.answers ops).map fun a => (a.1.after s.runs.lastRun, a.2.after s.runs.lastRun)
  /-- All tasks are of scopes that were opened before the reset. -/
  queued : ∀ t ∈ s.reset.tasks, t.work.scope.number < s.runs.scopes.opened
  /-- Such a task does nothing in its turns, due or not. -/
  leftover : ∀ ms place dueFirst t, (s.reset.moves ms).ready[place]? = some t →
    t.work.scope.number < s.runs.scopes.opened →
    (s.reset.moves ms).turnAt place dueFirst =
      { s.reset.moves ms with
        ready := (s.reset.moves ms).ready.eraseIdx place
        journal := ((s.reset.moves ms).turnAt place dueFirst).journal }

/-! ## After a past -/

theorem sight_after (p : Past) (s : Sequencer) : (s.after p).sight = s.sight.after p.runs := by
  have hcurrent : (s.after p).current = s.current.map (p.runs + ·) := s.runs.current_after p
  unfold sight Sight.after
  rw [isPlaying_after, hcurrent]
  rfl

theorem perform_after (p : Past) (s : Sequencer) (op : Operation) :
    (s.after p).perform op = ((s.perform op).1.after p.runs, (s.perform op).2.after p) := by
  cases op with
  | call c =>
      unfold perform
      dsimp only
      rw [call_after, settle_after]
  | wait ms =>
      unfold perform
      dsimp only
      rw [wait_after, settle_after]
      rfl
  | waitIdle =>
      unfold perform
      dsimp only
      rw [waitIdle_after, settle_after]
      rfl

theorem answers_after (p : Past) (s : Sequencer) (ops : List Operation) :
    (s.after p).answers ops =
      (s.answers ops).map fun a => (a.1.after p.runs, a.2.after p.runs) := by
  induction ops generalizing s with
  | nil => rfl
  | cons op ops ih =>
      unfold answers
      rw [perform_after, ih, sight_after]
      rfl

/-! ## Twins look the same -/

namespace Twin

variable {p : Past} {s f : Sequencer}

theorem sight (h : Twin p s f) : s.sight = f.sight.after p.runs := by
  have hsight : (s.sweep p).sight = (f.after p).sight := congrArg Sequencer.sight h.same
  rw [sight_after] at hsight
  exact hsight

theorem bisimulation (p : Past) : Bisimulation p.runs (Twin p) where
  sight := Twin.sight
  call := Twin.call
  pass := Twin.pass
  rejoin := Twin.rejoin
  turn := Twin.turnAt
  turn_back := Twin.turnAt_back

theorem perform (h : Twin p s f) (hdelay : s.stepTime ≠ 0) (op : Operation) :
    (s.perform op).1 = (f.perform op).1.after p.runs ∧ Twin p (s.perform op).2 (f.perform op).2 := by
  cases op with
  | call c =>
      obtain ⟨hreply, htwin⟩ := h.call c
      refine ⟨hreply, htwin.settle ?_⟩
      rwa [← move_call, move_stepTime]
  | wait ms =>
      refine ⟨rfl, (h.wait hdelay ms).settle ?_⟩
      rwa [wait_stepTime]
  | waitIdle =>
      refine ⟨rfl, (h.waitIdle hdelay).settle ?_⟩
      rwa [waitIdle_stepTime]

theorem perform_stepTime (s : Sequencer) (op : Operation) : (s.perform op).2.stepTime = s.stepTime := by
  cases op with
  | call c =>
      show (s.call c).2.settle.stepTime = _
      rw [(settle_goes _).stepTime_eq, ← move_call, move_stepTime]
  | wait ms =>
      show (s.wait ms).settle.stepTime = _
      rw [(settle_goes _).stepTime_eq, wait_stepTime]
  | waitIdle =>
      show s.waitIdle.settle.stepTime = _
      rw [(settle_goes _).stepTime_eq, waitIdle_stepTime]

theorem answers (h : Twin p s f) (hdelay : s.stepTime ≠ 0) (ops : List Operation) :
    s.answers ops = (f.answers ops).map fun a => (a.1.after p.runs, a.2.after p.runs) := by
  induction ops generalizing s f with
  | nil => rfl
  | cons op ops ih =>
      obtain ⟨hreply, htwin⟩ := h.perform hdelay op
      have hdelay' : (s.perform op).2.stepTime ≠ 0 := by
        rw [perform_stepTime]
        exact hdelay
      unfold Sequencer.answers
      rw [hreply, htwin.sight, ih htwin hdelay']
      rfl

end Twin

/-! ## What is left over at a reset -/

/-- What came before a reset, and how the journal tells it. -/
def past (s : Sequencer) (hs : s.WellFormed) (journal : List Note) : Past where
  runs := s.runs.lastRun
  epochs := s.runs.epoch + 1
  scopes := s.runs.scopes.cancel s.runs.session
  cancelled_lt := by
    intro n hn
    rcases Scopes.mem_cancel.mp hn with rfl | hn
    · exact hs.runs.session_lt
    · exact hs.runs.cancelled_lt n hn
  changes := s.store.version + 1
  journal

variable {s : Sequencer} (hs : s.WellFormed) (journal : List Note)

/-- Every task is left over. -/
theorem isLeftover_reset {t : Ready} (ht : t ∈ s.reset.tasks) :
    t.work.isLeftover (s.past hs journal) = true := by
  have hfits := hs.fits t (s.tasks_reset_perm.mem_iff.mp ht)
  have hcancelled := Runs.isCancelled_reset hs.runs hfits
  unfold Work.isLeftover
  cases hwork : t.work with
  | walk w =>
      rw [hwork] at hfits hcancelled
      rw [Bool.and_eq_true, decide_eq_true_eq]
      exact ⟨hcancelled, Nat.lt_succ_of_le hfits.epoch_le⟩
  | clear c =>
      rw [hwork] at hfits hcancelled
      rw [Bool.and_eq_true, decide_eq_true_eq]
      exact ⟨hcancelled, hfits.run_le⟩

include hs in
/-- No task is asleep: the sleepers are woken so that they end. -/
theorem reset_asleep : s.reset.asleep = [] := by
  rw [reset_eq, wakeCancelled_asleep, List.filter_eq_nil_iff]
  intro t ht
  have hfits : t.work.Fits s.runs := hs.fits _ (mem_tasks_of_asleep ht)
  simpa [isCancelled] using Runs.isCancelled_reset hs.runs hfits

/-- Without its tasks a sequencer that was reset is a new one after all that came before. -/
theorem rebuilt_after :
    s.rebuilt.after (s.past hs journal) =
      { s.reset with ready := [], yielded := [], asleep := [], journal } := by
  rw [reset_eq, wakeCancelled_eq]
  rfl

theorem twin_reset (hreachable : s.Reachable) :
    ∃ journal, Twin (s.past hreachable.wellFormed journal) s.reset s.rebuilt := by
  have hs := hreachable.wellFormed
  have hnone {l : List Ready} (hl : ∀ t ∈ l, t ∈ s.reset.tasks) (journal : List Note) :
      l.filter (fun t => !t.work.isLeftover (s.past hs journal)) = [] := by
    rw [List.filter_eq_nil_iff]
    intro t ht
    simpa using isLeftover_reset hs journal (hl t ht)
  refine ⟨s.reset.journal.filter fun n => !n.isLeftover (s.past hs []), ?_,
    hreachable.move (.call .reset), .built s⟩
  rw [rebuilt_after]
  unfold sweep
  rw [hnone (fun t ht => List.mem_append_left _ (List.mem_append_left _ ht)),
    hnone (fun t ht => List.mem_append_left _ (List.mem_append_right _ ht)), reset_asleep hs]
  rfl

/-- When all that is left over had its turn, nothing is left over but the journal. -/
theorem settle_reset (hreachable : s.Reachable) :
    s.reset.settle = s.rebuilt.after (s.past hreachable.wellFormed s.reset.journal) := by
  have hs := hreachable.wellFormed
  obtain ⟨journal, htwin⟩ := twin_reset hreachable
  have hall : ∀ t ∈ s.reset.ready ++ s.reset.yielded,
      t.work.isLeftover (s.past hs journal) = true := by
    intro t ht
    exact isLeftover_reset hs journal (List.mem_append_left _ ht)
  rw [rebuilt_after, ← reset_asleep hs]
  exact settleFrom_leftover htwin.since hall _

/-- After a reset a sequencer goes on like one that was built just now. -/
theorem reset_forgets {s : Sequencer} (hs : s.Reachable) : s.ForgetsPast := by
  obtain ⟨journal, htwin⟩ := twin_reset hs
  refine ⟨⟨_, Twin.bisimulation (s.past hs.wellFormed journal), htwin⟩, ?_, ?_, ?_, ?_⟩
  · intro ops
    rw [settle_reset hs, answers_after]
    rfl
  · intro hdelay ops
    have hdelay : s.reset.stepTime ≠ 0 := hdelay
    exact htwin.answers hdelay ops
  · intro t ht
    exact (hs.wellFormed.fits t (s.tasks_reset_perm.mem_iff.mp ht)).number_lt
  · intro ms place dueFirst t ht hopened
    obtain ⟨ns, hns⟩ := htwin.moves ms
    have hleft := hns.isLeftover_of_lt (List.mem_of_getElem? ht) hopened
    rw [turnAt_of_some ht]
    rcases turn_leftover (hns.since.without place) hleft dueFirst with heq | ⟨_, _, -, heq⟩ <;>
      rw [heq] <;> rfl

/-- The clear of a bubble waits for its first turn, and the walker is due for its second step. -/
def speaking : Sequencer :=
  (threeActions 5).moves
    [.call (.replaceProgram
        ⟨[⟨.hat .flagClicked, [.sayForSeconds "hello" 1.0, .unrecognized "second"]⟩]⟩),
      .call .run, .turn 0 false, .pass 5, .turn 0 false, .pass 5]

/-- A reset at the very instant at which a walker is due. -/
theorem reset_forgets_speaking :
    speaking.now = 10 ∧ speaking.reset.ready.map Ready.due = [none, some 10] ∧
      speaking.ForgetsPast := by
  have hreachable : speaking.Reachable := (Reachable.built (threeActions 5)).moves _
  exact ⟨by decide +kernel, by decide +kernel, reset_forgets hreachable⟩

/-- A script that takes more than one turn when there is no delay. -/
def longScript (message : String) : Script :=
  ⟨.hat .flagClicked, List.replicate stepsPerTurn (.unrecognized "second") ++ [.say message]⟩

/-- One turn short of a round is left over at a reset. -/
def crowded : Sequencer :=
  (threeActions 0).rebuilt.moves
    [.call (.replaceProgram
        ⟨List.replicate (turnsPerRound - 1) ⟨.hat .spriteClicked, [.unrecognized "second"]⟩ ++
          [longScript "first", longScript "second"]⟩),
      .call (.start .spriteClicked)]

/-- Without a delay the turns that are left over end a round between two walkers that yield. The other
one has the last word then. -/
theorem reset_turns_crowded : ¬ ∀ s : Sequencer, s.Reachable → ∀ ops, s.reset.answers ops =
    (s.rebuilt.answers ops).map fun a => (a.1.after s.runs.lastRun, a.2.after s.runs.lastRun) := by
  intro h
  have hreachable : crowded.Reachable := (Reachable.built (threeActions 0)).moves _
  have hlast : (crowded.reset.answers [.call .run]).map (fun a => a.2.motion.text.message) =
      (crowded.rebuilt.answers [.call .run]).map fun a => a.2.motion.text.message := by
    rw [h crowded hreachable, List.map_map]
    rfl
  revert hlast
  decide +kernel

end Sequencer

end SpriteStage
