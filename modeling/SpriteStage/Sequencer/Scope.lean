/-!
# Scopes

Work is cancelled in scopes. A scope is opened alone or inside another one. It is cancelled once it
or the scope around it was cancelled, and nothing takes a cancellation back.
-/

namespace SpriteStage

/-- Work that is cancelled as one. -/
structure Scope where
  number : Nat
  /-- The number of the scope around it. -/
  around : Option Nat
deriving DecidableEq, Repr

structure Scopes where
  /-- How many were opened. Their numbers are below this one. -/
  opened : Nat
  /-- The numbers of those that were cancelled. -/
  cancelled : List Nat

namespace Scopes

/-- Whether a scope or the one around it was cancelled. -/
def isCancelled (scopes : Scopes) (scope : Scope) : Bool :=
  scopes.cancelled.contains scope.number || scope.around.any scopes.cancelled.contains

def add (scopes : Scopes) (around : Option Scope) : Scope × Scopes :=
  (⟨scopes.opened, around.map Scope.number⟩, { scopes with opened := scopes.opened + 1 })

def cancel (scopes : Scopes) (scope : Scope) : Scopes :=
  { scopes with cancelled := scope.number :: scopes.cancelled }

@[simp] theorem mem_cancel {scopes : Scopes} {scope : Scope} {n : Nat} :
    n ∈ (scopes.cancel scope).cancelled ↔ n = scope.number ∨ n ∈ scopes.cancelled :=
  List.mem_cons

theorem isCancelled_iff {scopes : Scopes} {scope : Scope} :
    scopes.isCancelled scope = true ↔
      scope.number ∈ scopes.cancelled ∨ ∃ n ∈ scopes.cancelled, scope.around = some n := by
  unfold isCancelled
  rw [Bool.or_eq_true, List.contains_iff_mem]
  cases scope.around <;> simp [eq_comm]

theorem isCancelled_eq_false_iff {scopes : Scopes} {scope : Scope} :
    scopes.isCancelled scope = false ↔
      scope.number ∉ scopes.cancelled ∧ ∀ n ∈ scopes.cancelled, scope.around ≠ some n := by
  rw [← Bool.not_eq_true, isCancelled_iff]
  simp only [not_or, not_exists, not_and, ne_eq]

/-- What is left alone by a cancellation is neither the scope that is cancelled nor inside it. -/
theorem isCancelled_cancel_eq_false {scopes : Scopes} {scope other : Scope}
    (h : (scopes.cancel scope).isCancelled other = false) :
    other.number ≠ scope.number ∧ other.around ≠ some scope.number ∧
      scopes.isCancelled other = false := by
  obtain ⟨hnumber, haround⟩ := isCancelled_eq_false_iff.mp h
  simp only [mem_cancel, not_or] at hnumber
  refine ⟨hnumber.1, haround _ (mem_cancel.mpr (.inl rfl)), ?_⟩
  exact isCancelled_eq_false_iff.mpr
    ⟨hnumber.2, fun n hn => haround n (mem_cancel.mpr (.inr hn))⟩

end Scopes

end SpriteStage
