import SpriteStage.Sprite.Transition

/-!
# The store

The sprite, which run wrote its bubble and its animation last, and the snapshots for undo. A timed
clear names the run that asked for it and does nothing once another run wrote the slot. `version`
counts the changes, so that an observer that remembers the version it saw knows whether it missed
one.
-/

namespace SpriteStage

/-- The number of a run. -/
abbrev Stamp := Nat

/-- The parts of the sprite that a timed clear can reset. -/
inductive Slot where
  | text
  | animation
deriving DecidableEq, Repr

structure Store where
  motion : Motion := Motion.initial
  textOwner : Option Stamp := none
  animationOwner : Option Stamp := none
  /-- The snapshots for undo, newest first. -/
  history : List Snapshot := []
  /-- How often observers were notified. -/
  version : Nat := 0

namespace Store

/-- Changes the sprite without an owner. -/
def write (s : Store) (m : Motion) : Store := { s with motion := m, version := s.version + 1 }

/-- Takes over the sprite that a step of a run made, and notes the run as the owner of what the step
wrote. -/
def applyStep (s : Store) (stamp : Stamp) (m : Motion) (effect : Effect) : Store :=
  { s with
    motion := m
    textOwner := if effect.text.isWritten then some stamp else s.textOwner
    animationOwner := if effect.animation.isWritten then some stamp else s.animationOwner
    version := s.version + 1 }

def ownsText (s : Store) (stamp : Stamp) : Bool := s.textOwner == some stamp

def ownsAnimation (s : Store) (stamp : Stamp) : Bool := s.animationOwner == some stamp

/-- Hides the bubble if the run still owns it. -/
def clearText (s : Store) (stamp : Stamp) : Store :=
  if s.ownsText stamp then
    { s with
      motion := { s.motion with text := Bubble.hidden }
      textOwner := none
      version := s.version + 1 }
  else s

def clearAnimation (s : Store) (stamp : Stamp) : Store :=
  if s.ownsAnimation stamp then
    { s with
      motion := { s.motion with animation := none }
      animationOwner := none
      version := s.version + 1 }
  else s

def owns (s : Store) : Slot → Stamp → Bool
  | .text => s.ownsText
  | .animation => s.ownsAnimation

def clear (s : Store) : Slot → Stamp → Store
  | .text => s.clearText
  | .animation => s.clearAnimation

def snapshot (s : Store) : Snapshot := s.motion.snapshot

def push (s : Store) (entry : Snapshot) : Store := { s with history := entry :: s.history }

def pop (s : Store) : Option (Snapshot × Store) :=
  match s.history with
  | [] => none
  | entry :: rest => some (entry, { s with history := rest })

/-- Brings a snapshot back. No timed clear owns what it brings back. -/
def restore (s : Store) (entry : Snapshot) : Store :=
  { s with
    motion := entry.motion
    textOwner := none
    animationOwner := none
    version := s.version + 1 }

def reset (s : Store) : Store := { version := s.version + 1 }

/-- A clear of a run that does not own the bubble changes nothing. -/
theorem clearText_of_not_owns {s : Store} {stamp : Stamp} (h : s.ownsText stamp = false) :
    s.clearText stamp = s := by
  simp [clearText, h]

/-- A clear of a run that does not own the animation changes nothing. -/
theorem clearAnimation_of_not_owns {s : Store} {stamp : Stamp} (h : s.ownsAnimation stamp = false) :
    s.clearAnimation stamp = s := by
  simp [clearAnimation, h]

/-- A clear of a run that does not own the slot changes nothing. -/
theorem clear_of_not_owns {s : Store} {slot : Slot} {stamp : Stamp} (h : s.owns slot stamp = false) :
    s.clear slot stamp = s := by
  cases slot
  · exact clearText_of_not_owns h
  · exact clearAnimation_of_not_owns h

theorem pop_of_nil {s : Store} (h : s.history = []) : s.pop = none := by
  simp only [pop, h]

theorem pop_of_cons {s : Store} {entry : Snapshot} {older : List Snapshot}
    (h : s.history = entry :: older) : s.pop = some (entry, { s with history := older }) := by
  simp only [pop, h]

end Store

/-- Someone who looks at the store now and then. -/
structure Observer where
  /-- The version seen last. -/
  seen : Nat

namespace Observer

def of (s : Store) : Observer := ⟨s.version⟩

def isChanged (o : Observer) (s : Store) : Bool := o.seen != s.version

def look (_ : Observer) (s : Store) : Motion × Observer := (s.motion, ⟨s.version⟩)

end Observer

end SpriteStage
