import SpriteStage.Screen

/-!
# The menu bar

An item is cut into segments: what stands in brackets is bold, what stands outside dim. A bracket
that is never closed is written as it is, with all that follows.
-/

namespace SpriteStage.MenuBar

/-- A piece of an item with its style, none for an unclosed bracket. -/
structure Segment where
  style : Option Style
  text : List Char
deriving DecidableEq, Repr

def consDim (text : List Char) (rest : List Segment) : List Segment :=
  if text.isEmpty then rest else ⟨some .dim, text⟩ :: rest

def segments (cs : List Char) : List Segment :=
  let outside := cs.takeWhile (· != '[')
  match _hs : cs.dropWhile (· != '[') with
  | [] => consDim outside []
  | b :: r =>
    let inside := r.takeWhile (· != ']')
    match _hr : r.dropWhile (· != ']') with
    | [] => consDim outside [⟨none, b :: r⟩]
    | e :: rest => consDim outside (⟨some .bold, b :: inside ++ [e]⟩ :: segments rest)
termination_by cs.length
decreasing_by
  have h1 := (List.dropWhile_suffix (· != '[') (l := cs)).length_le
  have h2 := (List.dropWhile_suffix (· != ']') (l := r)).length_le
  rw [_hs] at h1
  rw [_hr] at h2
  simp only [List.length_cons] at h1 h2
  omega

def item (s : String) : List Draw :=
  (segments s.toList).flatMap fun g => Draw.styled g.style (String.ofList g.text)

def bar (row : Nat) (items : List String) : List Draw :=
  [.moveTo 0 row, .clearLine, .text " "] ++ ((items.map item).intersperse [.text "  "]).flatten

end SpriteStage.MenuBar
