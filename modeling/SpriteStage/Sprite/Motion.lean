import SpriteStage.Json.Reading
import SpriteStage.Json.Printer

/-!
# The sprite

What is known of the sprite at one moment, what of it is kept for undo, and both as JSON.
-/

namespace SpriteStage

structure Point where
  x : Float
  y : Float

def Point.zero : Point := ⟨0.0, 0.0⟩

/-- The equality of coordinates, which tells no zero from the other and no NaN from nothing. -/
instance : BEq Point := ⟨fun p q => p.x == q.x && p.y == q.y⟩

inductive AnimationKind where
  | glide
deriving DecidableEq, Repr

/-- A movement that the preview draws out over some time. -/
structure Animation where
  kind : AnimationKind
  durationMs : Nat
deriving DecidableEq, Repr

structure Bubble where
  message : String
  durationMs : Nat
  think : Bool
deriving DecidableEq, Repr

def Bubble.hidden : Bubble := ⟨"", 0, false⟩

/-- A bubble is shown when it lasts any time at all. -/
def Bubble.isVisible (b : Bubble) : Bool := 0 < b.durationMs

structure Motion where
  position : Point
  rotation : Float
  animation : Option Animation
  text : Bubble
  size : Float

/-- The sprite before anything happened to it. -/
def Motion.initial : Motion := ⟨Point.zero, 0.0, none, Bubble.hidden, 0.0⟩

/-- What undo brings back. -/
structure Snapshot where
  position : Point
  rotation : Float
  size : Float
  text : Bubble

namespace Motion

def snapshot (m : Motion) : Snapshot := ⟨m.position, m.rotation, m.size, m.text⟩

/-- Equality of all parts, by the equality of numbers. -/
def same (a b : Motion) : Bool :=
  a.position == b.position && a.rotation == b.rotation && a.animation == b.animation &&
    a.text == b.text && a.size == b.size

end Motion

/-- The sprite that a snapshot brings back: no animation goes on. -/
def Snapshot.motion (s : Snapshot) : Motion := ⟨s.position, s.rotation, none, s.text, s.size⟩

/-! ## As JSON -/

open Json

def Point.toValue (p : Point) : Value := .obj [("x", .num (.float p.x)), ("y", .num (.float p.y))]

def Point.ofTree (t : Tree) : Except Fault Point :=
  t.readRecord
    [Field.of "x" .required Tree.readFloat fun x p => { p with x },
     Field.of "y" .required Tree.readFloat fun y p => { p with y }]
    Point.zero

def AnimationKind.name : AnimationKind → String
  | .glide => "glide"

def AnimationKind.ofTree (t : Tree) : Except Fault AnimationKind :=
  t.readChoice [("glide", .glide)]

def Animation.toValue (a : Animation) : Value :=
  .obj [("type", .str a.kind.name), ("duration_ms", .num (.int a.durationMs))]

def Animation.ofTree (t : Tree) : Except Fault Animation :=
  t.readRecord
    [Field.of "type" .required AnimationKind.ofTree fun kind a => { a with kind },
     Field.of "duration_ms" .required Tree.readNat fun durationMs a => { a with durationMs }]
    ⟨.glide, 0⟩

def Bubble.toValue (b : Bubble) : Value :=
  .obj [("message", .str b.message), ("duration_ms", .num (.int b.durationMs)),
    ("think", .bool b.think)]

def Bubble.ofTree (t : Tree) : Except Fault Bubble :=
  t.readRecord
    [Field.of "message" .required Tree.readString fun message b => { b with message },
     Field.of "duration_ms" .required Tree.readNat fun durationMs b => { b with durationMs },
     Field.of "think" .required Tree.readBool fun think b => { b with think }]
    Bubble.hidden

def Motion.toValue (m : Motion) : Value :=
  .obj [("position", m.position.toValue), ("rotation", .num (.float m.rotation)),
    ("animation", (m.animation.map Animation.toValue).getD .null), ("text", m.text.toValue),
    ("size", .num (.float m.size))]

def Motion.ofTree (t : Tree) : Except Fault Motion :=
  t.readRecord
    [Field.of "position" .required Point.ofTree fun position m => { m with position },
     Field.of "rotation" .required Tree.readFloat fun rotation m => { m with rotation },
     Field.of "animation" .optionalByName (Tree.readOption Animation.ofTree)
        fun animation m => { m with animation },
     Field.of "text" .required Bubble.ofTree fun text m => { m with text },
     Field.of "size" .required Tree.readFloat fun size m => { m with size }]
    Motion.initial

def Motion.ofText (text : String) : Except Fault Motion :=
  (Document.ofText text.toList).read Motion.ofTree

def Snapshot.toValue (s : Snapshot) : Value :=
  .obj [("position", s.position.toValue), ("rotation", .num (.float s.rotation)),
    ("size", .num (.float s.size)), ("text", s.text.toValue)]

end SpriteStage
