import SpriteStage.Program.Action
import SpriteStage.Program.Listing

/-!
# Programs

A program is a list of scripts, and a script the actions of one chain: the one at its head, which
may be the hat of an event, and those that follow. `Program.ofChains` types all blocks of all chains
and reports the first fault.
-/

namespace SpriteStage

/-- The actions of a chain. -/
structure Script where
  head : Action
  rest : List Action

namespace Script

def actions (s : Script) : List Action := s.head :: s.rest

def ofChain (c : Chain) : Except ProgramError Script := do
  let head ← Action.ofBlock c.head
  let rest ← c.rest.mapM Action.ofBlock
  return ⟨head, rest⟩

end Script

structure Program where
  scripts : List Script

namespace Program

def empty : Program := ⟨[]⟩

def ofChains (chains : List Chain) : Except ProgramError Program :=
  (chains.mapM Script.ofChain).map Program.mk

def ofText (text : String) : Except ProgramError Program :=
  match Listing.ofText text with
  | .error fault => .error (.malformed fault)
  | .ok listing => ofChains listing.chains

def scriptsFor (p : Program) (event : Event) : List Script :=
  p.scripts.filter fun s => s.head.event? = some event

end Program

end SpriteStage
