import SpriteStage.Proofs.Sequencer.InFlight

/-!
# Whether something is playing

`isPlaying` looks at a counter of the walkers of the session, whatever their runs. The walkers of a run
that was superseded end on their next turn and are counted until then. So it is right as soon as they
had that turn, and before it can take one of them for a walker of the current run.
-/

namespace SpriteStage.Sequencer

/-- Whether a script of the current run is in flight: a walker of the run did not end. -/
def playsCurrent (s : Sequencer) : Bool :=
  s.tasks.any fun t =>
    match t.work with
    | .walk w => s.current == some w.run
    | .clear _ => false

/-- Whether a walker of this session whose run is over did not end. -/
def isWinding (s : Sequencer) : Bool :=
  s.tasks.any fun t =>
    match t.work with
    | .walk w => w.epoch == s.runs.epoch && s.current != some w.run
    | .clear _ => false

variable {s : Sequencer}

theorem playsCurrent_iff :
    s.playsCurrent = true ↔ ∃ t ∈ s.tasks, ∃ w, t.work = .walk w ∧ s.current = some w.run := by
  unfold playsCurrent
  rw [List.any_eq_true]
  refine exists_congr fun t => and_congr_right fun _ => ?_
  cases t.work <;> simp

theorem isWinding_iff :
    s.isWinding = true ↔ ∃ t ∈ s.tasks, ∃ w, t.work = .walk w ∧ w.epoch = s.runs.epoch ∧
      s.current ≠ some w.run := by
  unfold isWinding
  rw [List.any_eq_true]
  refine exists_congr fun t => and_congr_right fun _ => ?_
  cases t.work <;> simp

/-- The walkers of the current run are of the session. -/
theorem WellFormed.epoch_eq (h : s.WellFormed) {t : Ready} (ht : t ∈ s.tasks) {w : Walker}
    (hw : t.work = .walk w) (hcurrent : s.current = some w.run) : w.epoch = s.runs.epoch := by
  have hfits : w.Fits s.runs := by
    have hfits := h.fits t ht
    rwa [hw] at hfits
  obtain ⟨run, hactive, hid⟩ := Option.map_eq_some_iff.mp hcurrent
  have hlive := h.runs.active_isCancelled hactive
  rw [hfits.scope_eq run hactive hid] at hlive
  exact (hfits.live hlive).2

/-- When all tasks had their turns, no walker of a run that is over is left. -/
theorem WellFormed.not_isWinding (h : s.WellFormed) (hready : s.ready = [])
    (hyielded : s.yielded = []) : s.isWinding = false := by
  rw [← Bool.not_eq_true, isWinding_iff]
  rintro ⟨t, ht, w, hw, -, hcurrent⟩
  have hfits : w.Fits s.runs := by
    have hfits := h.fits t ht
    rwa [hw] at hfits
  rw [tasks_eq_asleep hready hyielded] at ht
  obtain ⟨u, hu, rfl⟩ := List.mem_map.mp ht
  -- the walker sleeps, so its run goes on
  have hlive := h.awake u hu
  rw [show u.work = .walk w from hw] at hlive
  exact hcurrent (Runs.current_of_active (hfits.live hlive).1)

theorem isPlaying_iff (hs : s.Reachable) :
    s.isPlaying = true ↔ s.playsCurrent = true ∨ s.current.isSome = true ∧ s.isWinding = true := by
  have hflight : 0 < s.inFlight ↔ ∃ t ∈ s.tasks, ∃ w, t.work = .walk w ∧
      w.epoch = s.runs.epoch := by
    rw [hs.counted, walkersIn, List.countP_pos_iff]
    refine exists_congr fun t => and_congr_right fun _ => ?_
    cases t.work <;> simp [Work.isOf]
  unfold isPlaying
  rw [Bool.and_eq_true, decide_eq_true_iff, hflight, playsCurrent_iff, isWinding_iff]
  constructor
  · rintro ⟨hsome, t, ht, w, hw, hepoch⟩
    by_cases hcurrent : s.current = some w.run
    · exact .inl ⟨t, ht, w, hw, hcurrent⟩
    · exact .inr ⟨hsome, t, ht, w, hw, hepoch, hcurrent⟩
  · rintro (⟨t, ht, w, hw, hcurrent⟩ | ⟨hsome, t, ht, w, hw, hepoch, -⟩)
    · refine ⟨?_, t, ht, w, hw, hs.wellFormed.epoch_eq ht hw hcurrent⟩
      rw [hcurrent]
      rfl
    · exact ⟨hsome, t, ht, w, hw, hepoch⟩

/-- What `isPlaying` and the run control tell of the scripts in flight. -/
structure TellsPlaying (s : Sequencer) : Prop where
  playing : s.isPlaying = true ↔
    s.playsCurrent = true ∨ s.current.isSome = true ∧ s.isWinding = true
  /-- Without walkers of runs that are over it is the current run that plays. -/
  exact : s.isWinding = false → s.isPlaying = s.playsCurrent
  /-- So it is when all tasks had their turns. -/
  settled : s.ready = [] → s.yielded = [] → s.isPlaying = s.playsCurrent
  /-- The run control refuses a program with a script of the flag only while something plays. -/
  refused : s.program.scriptsFor .flagClicked ≠ [] → s.run.1 = none →
    s.playsCurrent = true ∨ s.isWinding = true

theorem tells_playing (hs : s.Reachable) : s.TellsPlaying := by
  have hexact (hwinding : s.isWinding = false) : s.isPlaying = s.playsCurrent := by
    rw [Bool.eq_iff_iff, isPlaying_iff hs, hwinding]
    simp
  refine ⟨isPlaying_iff hs, hexact, ?_, ?_⟩
  · intro hready hyielded
    exact hexact (hs.wellFormed.not_isWinding hready hyielded)
  · intro hscripts hnone
    rcases run_cases s with ⟨hplaying, -⟩ | ⟨-, heq⟩
    · rcases (isPlaying_iff hs).mp hplaying with hplays | ⟨-, hwinding⟩
      · exact .inl hplays
      · exact .inr hwinding
    · rw [heq] at hnone
      rcases start_cases s .flagClicked with ⟨hnil, -⟩ | ⟨-, hstart⟩
      · exact absurd hnil hscripts
      · rw [hstart] at hnone
        cases hnone

/-- The run of the flag is superseded by one that ends at once, and its walker had no turn since. -/
def unwinding : Sequencer :=
  (threeActions 5).moves
    [.call (.replaceProgram
        ⟨[⟨.hat .flagClicked, [.unrecognized "second"]⟩, ⟨.hat .spriteClicked, []⟩]⟩),
      .call .run, .call (.start .spriteClicked)]

theorem tells_playing_unwinding :
    unwinding.isWinding = true ∧ unwinding.current = some 2 ∧ unwinding.TellsPlaying := by
  have hreachable : unwinding.Reachable := (Reachable.built (threeActions 5)).moves _
  exact ⟨by decide +kernel, by decide +kernel, tells_playing hreachable⟩

/-- Nothing of the current run is in flight, and yet something is said to play, and the run control
does nothing. -/
theorem plays_while_winding : ¬ ∀ s : Sequencer, s.Reachable →
    (s.isPlaying = true ↔ s.playsCurrent = true) ∧
      (s.program.scriptsFor .flagClicked ≠ [] → s.run.1 = none → s.playsCurrent = true) := by
  intro h
  have hreachable : unwinding.Reachable := (Reachable.built (threeActions 5)).moves _
  have hplays := (h unwinding hreachable).1
  revert hplays
  decide +kernel

end SpriteStage.Sequencer
