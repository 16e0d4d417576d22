import SpriteStage.Sequencer.Scope
import SpriteStage.Sprite.Store

/-!
# Runs

Which run goes on, and in which scope. A session lasts from one reset to the next; each run has a
scope of its own inside the session. A run goes on until a newer one starts, until it is cancelled,
or until the session is over.
-/

namespace SpriteStage

structure ActiveRun where
  id : Stamp
  scope : Scope
deriving DecidableEq, Repr

structure Runs where
  scopes : Scopes := ⟨1, []⟩
  /-- The scope of the session. -/
  session : Scope := ⟨0, none⟩
  /-- The number of resets. -/
  epoch : Nat := 0
  active : Option ActiveRun := none
  /-- The number of the run that was started last. -/
  lastRun : Stamp := 0

namespace Runs

def current (r : Runs) : Option Stamp := r.active.map ActiveRun.id

def cancelActive (r : Runs) : Runs :=
  match r.active with
  | none => r
  | some run => { r with active := none, scopes := r.scopes.cancel run.scope }

/-- Starts a run, which takes the place of the one that goes on. -/
def start (r : Runs) : ActiveRun × Runs :=
  let r := r.cancelActive
  let (scope, scopes) := r.scopes.add (some r.session)
  let run := ⟨r.lastRun + 1, scope⟩
  (run, { r with scopes, active := some run, lastRun := r.lastRun + 1 })

/-- Ends the session with all that goes on in it, and begins the next one. -/
def reset (r : Runs) : Runs :=
  let (session, scopes) := (r.scopes.cancel r.session).add none
  { r with scopes, session, epoch := r.epoch + 1, active := none }

end Runs

end SpriteStage
