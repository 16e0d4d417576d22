import SpriteStage.Proofs.Sequencer.Ledger

/-!
# Who owns the slots

The bubble and the animation are owned by the run that wrote them last, if nothing was reset or
brought back since. So their owners are runs that were started.
-/

namespace SpriteStage

namespace Ledger

/-- The runs of the ledger are in order, and every owner is one that was started. -/
structure Owned (v : Ledger) : Prop where
  runs : v.runs.WellFormed
  owner : ∀ slot run, v.store.owner slot = some run → 0 < run ∧ run ≤ v.runs.lastRun

namespace Owned

variable {punctual : Prop} {v v' : Ledger}

/-- What can happen hands a slot to the current run only, and takes slots from their owners. -/
theorem happens (h : v.Owned) (hv : Happens punctual v v') : v'.Owned := by
  cases hv with
  | executes step hcurrent htime =>
      refine ⟨h.runs, fun slot run howner => ?_⟩
      have howner : (v.store.applyStep _ _ _).owner slot = some run := howner
      rw [Store.owner_applyStep] at howner
      split at howner
      · -- the run of the step is the last one that was started
        obtain ⟨active, hactive, hid⟩ := Option.map_eq_some_iff.mp hcurrent
        have hfits := h.runs.active active hactive
        rw [← Option.some.inj howner, ← hid]
        exact ⟨hfits.pos, Nat.le_of_eq hfits.last⟩
      · exact h.owner slot run howner
  | fires alarm others halarms hdue =>
      exact ⟨h.runs, fun slot run howner => h.owner slot run (Store.owner_clear howner)⟩
  | ends alarm others halarms hcancelled => exact ⟨h.runs, h.owner⟩
  | opens event =>
      refine ⟨h.runs.start, fun slot run howner => ?_⟩
      obtain ⟨hpos, hle⟩ := h.owner slot run ((Store.owner_push _ _ slot).symm.trans howner)
      refine ⟨hpos, ?_⟩
      show run ≤ v.runs.start.2.lastRun
      rw [Runs.lastRun_start]
      exact Nat.le_succ_of_le hle
  | cancels =>
      refine ⟨h.runs.cancelActive, fun slot run howner => ?_⟩
      show 0 < run ∧ run ≤ v.runs.cancelActive.lastRun
      rw [Runs.cancelActive_lastRun]
      exact h.owner slot run howner
  | undoes entry older hhistory =>
      refine ⟨h.runs, fun slot run howner => ?_⟩
      cases (Store.owner_restore _ _ slot).symm.trans howner
  | resets =>
      refine ⟨h.runs.reset, fun slot run howner => ?_⟩
      cases (Store.owner_reset _ slot).symm.trans howner
  | passes ms alarms hsame honTime => exact ⟨h.runs, h.owner⟩

theorem goes (h : v.Owned) (hv : Goes punctual v v') : v'.Owned := by
  induction hv with
  | refl => exact h
  | tail _ hstep ih => exact ih.happens hstep

end Owned

end Ledger

namespace Sequencer

def Owned (s : Sequencer) : Prop :=
  ∀ slot run, s.store.owns slot run = true → 0 < run ∧ run ≤ s.runs.lastRun

/-- In every state that a sequencer comes to the owners are runs that were started. -/
theorem Reachable.owned {s : Sequencer} (h : s.Reachable) : s.Owned := by
  have howned : s.ledger.Owned := by
    induction h with
    | built s =>
        refine ⟨Runs.wellFormed_init, fun slot run howner => ?_⟩
        cases slot <;> cases howner
    | move m hs ih =>
        have hgoes : Ledger.Goes False _ _ := goes_move hs.wellFormed m False.elim
        exact ih.goes hgoes
  intro slot run hrun
  exact howned.owner slot run (Store.owns_iff.mp hrun)

end Sequencer

end SpriteStage
