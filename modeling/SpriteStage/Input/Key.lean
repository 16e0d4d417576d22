/-!
# Terminal events

What a terminal reports: keys, the mouse, and changes of the terminal itself.
-/

namespace SpriteStage

inductive KeyCode where
  | char (c : Char)
  | function (n : Nat)
  | enter
  | esc
  | tab
  | backTab
  | backspace
  | delete
  | insert
  | up
  | down
  | left
  | right
  | home
  | endKey
  | pageUp
  | pageDown
  | null
  /-- A key that no binding names, by its number. -/
  | other (number : Nat)
deriving DecidableEq, Repr

structure Modifiers where
  ctrl : Bool := false
  alt : Bool := false
  shift : Bool := false
  superKey : Bool := false
deriving DecidableEq, Repr

def Modifiers.union (a b : Modifiers) : Modifiers :=
  ⟨a.ctrl || b.ctrl, a.alt || b.alt, a.shift || b.shift, a.superKey || b.superKey⟩

inductive KeyMove where
  | press
  | repeated
  | release
deriving DecidableEq, Repr

structure Key where
  code : KeyCode
  modifiers : Modifiers := {}
  move : KeyMove := .press
deriving DecidableEq, Repr

inductive MouseMove where
  | moved
  | dragged
  | leftPressed
  /-- Another button, a release or the wheel. -/
  | other
deriving DecidableEq, Repr

inductive TerminalEvent where
  | key (k : Key)
  | mouse (move : MouseMove) (col row : Nat)
  | resized
  /-- A paste, or the focus that comes and goes. -/
  | other
deriving DecidableEq, Repr

end SpriteStage
