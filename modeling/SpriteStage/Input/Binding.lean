import SpriteStage.Decimal.Numeral
import SpriteStage.Input.Key

/-!
# Key bindings

A binding is a key by name, by character or as `F` and a number, perhaps behind `Ctrl-` or `Alt-`. A
binding with neither does not fire while one of the two is held.
-/

namespace SpriteStage

def after? : (beginning : List Char) → List Char → Option (List Char)
  | [], cs => some cs
  | _ :: _, [] => none
  | b :: bs, c :: cs => if b = c then after? bs cs else none

/-- A function key has a number of eight bits. -/
def functionLimit : Nat := 256

/-- The key of a name; a name that is none binds nothing. -/
def KeyCode.ofName? (name : List Char) : Option KeyCode :=
  match String.ofList name with
  | "Enter" => some .enter
  | "Esc" => some .esc
  | "Space" => some (.char ' ')
  | "Tab" => some .tab
  | "Backspace" => some .backspace
  | "Up" => some .up
  | "Down" => some .down
  | "Left" => some .left
  | "Right" => some .right
  | _ =>
    match (after? ['F'] name).bind (Decimal.whole? functionLimit) with
    | some n => some (.function n)
    | none =>
      match name with
      | [c] => some (.char c)
      | _ => none

/-- A binding taken apart: the key, and which of the two modifiers must be held. -/
structure Binding where
  needsCtrl : Bool
  needsAlt : Bool
  code : Option KeyCode
deriving DecidableEq, Repr

def Binding.ofName (name : String) : Binding :=
  let cs := name.toList
  match after? "Ctrl-".toList cs with
  | some r => ⟨true, false, KeyCode.ofName? r⟩
  | none =>
    match after? "Alt-".toList cs with
    | some r => ⟨false, true, KeyCode.ofName? r⟩
    | none => ⟨false, false, KeyCode.ofName? cs⟩

def Binding.fires (b : Binding) (k : Key) : Bool :=
  let held :=
    if b.needsCtrl then k.modifiers.ctrl
    else if b.needsAlt then k.modifiers.alt
    else !k.modifiers.ctrl && !k.modifiers.alt
  held && b.code == some k.code

def Key.fires (k : Key) (binding : String) : Bool := (Binding.ofName binding).fires k

end SpriteStage
