import SpriteStage.Sprite.Motion

/-!
# Pointer samples

Pointer movement arrives in bursts, so samples are accepted at most once per window. The first
sample of a window is taken at once; of the later ones the last is kept pending and taken when the
window ends. Times are microseconds on one time line and may go backwards; time that would have
passed backwards counts as none.
-/

namespace SpriteStage

structure ThrottledPointer where
  /-- The length of a window in microseconds. -/
  interval : Nat
  /-- The sample that was accepted last. -/
  position : Point := Point.zero
  /-- When it was accepted. -/
  acceptedAt : Option Int := none
  /-- The sample that waits for the end of the window. -/
  pending : Option Point := none

namespace ThrottledPointer

def ofMillis (ms : Nat) : ThrottledPointer := { interval := ms * 1000 }

/-- Accepts the pending sample if its window is over, as of the end of the window. -/
def promote (t : ThrottledPointer) (now : Int) : ThrottledPointer :=
  match t.pending, t.acceptedAt with
  | some p, some start =>
    let windowEnd := start + t.interval
    if windowEnd ≤ now then
      { t with position := p, acceptedAt := some windowEnd, pending := none }
    else t
  | _, _ => t

def inWindow (t : ThrottledPointer) (now : Int) : Bool :=
  match t.acceptedAt with
  | some start => (now - start).toNat < t.interval
  | none => false

/-- Records a sample, and says whether it was accepted at once. -/
def record (t : ThrottledPointer) (p : Point) (now : Int) : Bool × ThrottledPointer :=
  let t := t.promote now
  if t.inWindow now then (false, { t with pending := some p })
  else (true, { t with position := p, acceptedAt := some now, pending := none })

def read (t : ThrottledPointer) (now : Int) : Point × ThrottledPointer :=
  let t := t.promote now
  (t.position, t)

end ThrottledPointer

end SpriteStage
