import Mathlib.Data.List.Induction
import SpriteStage.Proofs.Screen.Marks

/-!
# What a terminal shows

A terminal holds a character in each of its cells. What is printed goes into the cell under the
cursor, and a row or the whole screen may be cleared. A picture has characters for some of the cells
only, and a drawing that paints it lays it over what was shown, whatever that was and wherever the
cursor was: `Paints`. What is drawn later lies over what was drawn before, and the marks of a
drawing are a picture if no two of them put different characters into one cell: `Prints.paints`.
-/

namespace SpriteStage

/-- What the cells of a terminal show, by column and row. -/
abbrev Cells := Nat → Nat → Char

namespace Cells

def blank : Cells := fun _ _ => ' '

def clearRow (s : Cells) (row : Nat) : Cells := fun col r => if r = row then ' ' else s col r

def mark (s : Cells) (m : Mark) : Cells :=
  fun col row => if m.col = col ∧ m.row = row then m.char else s col row

/-- Where no mark is, the cells show what they showed. -/
theorem foldl_mark_of_none {ms : List Mark} {col row : Nat}
    (h : ∀ m ∈ ms, ¬ (m.col = col ∧ m.row = row)) (s : Cells) :
    ms.foldl mark s col row = s col row := by
  induction ms generalizing s with
  | nil => rfl
  | cons m ms ih =>
      rw [List.foldl_cons, ih fun k hk => h k (.tail m hk), mark, if_neg (h m List.mem_cons_self)]

/-- Where all marks agree, the cells show what they agree on. -/
theorem foldl_mark_of_mem {ms : List Mark} {k : Mark} (hk : k ∈ ms)
    (h : ∀ m ∈ ms, m.col = k.col ∧ m.row = k.row → m.char = k.char) (s : Cells) :
    ms.foldl mark s k.col k.row = k.char := by
  induction ms using List.reverseRecOn with
  | nil => cases hk
  | append_singleton ms m ih =>
      rw [List.foldl_append, List.foldl_cons, List.foldl_nil, mark]
      -- the last mark of the cell counts
      by_cases hm : m.col = k.col ∧ m.row = k.row
      · rw [if_pos hm]
        exact h m (by simp) hm
      · rw [if_neg hm]
        rcases List.mem_append.mp hk with hk | hk
        · exact ih hk fun m' hm' => h m' (List.mem_append_left _ hm')
        · obtain rfl := List.mem_singleton.mp hk
          exact absurd ⟨rfl, rfl⟩ hm

end Cells

/-- Whether a command takes characters off the screen. The program's own screen is blank when it is
entered. -/
def Draw.clears : Draw → Bool
  | .clearLine => true
  | .clearAll => true
  | .ownScreen on => on
  | _ => false

theorem Draw.clears_styled {style : Option Style} {s : String} :
    ∀ d ∈ Draw.styled style s, d.clears = false := by
  cases style with
  | none => simp [Draw.styled, Draw.clears]
  | some st => simp [Draw.styled, Draw.clears]

/-- A terminal with room for every cell. -/
structure Terminal where
  cells : Cells
  /-- Where the next character goes. -/
  cursor : Cursor

namespace Terminal

def take (t : Terminal) (d : Draw) : Terminal where
  cells := match d with
    | .clearLine => t.cells.clearRow t.cursor.row
    | .clearAll => Cells.blank
    | .ownScreen true => Cells.blank
    | d => (t.cursor.line d.chars).foldl Cells.mark t.cells
  cursor := t.cursor.after d

def draw (t : Terminal) (ds : List Draw) : Terminal := ds.foldl take t

theorem cells_take {d : Draw} (h : d.clears = false) (t : Terminal) :
    (t.take d).cells = (t.cursor.line d.chars).foldl Cells.mark t.cells := by
  cases d with
  | clearLine | clearAll => cases h
  | ownScreen on =>
      obtain rfl : on = false := h
      rfl
  | _ => rfl

theorem draw_append (t : Terminal) (ds es : List Draw) : t.draw (ds ++ es) = (t.draw ds).draw es :=
  List.foldl_append

/-- A drawing that clears nothing leaves its marks one after the other. -/
theorem cells_draw {ds : List Draw} (h : ∀ d ∈ ds, d.clears = false) (t : Terminal) :
    (t.draw ds).cells = (t.cursor.marks ds).foldl Cells.mark t.cells := by
  induction ds generalizing t with
  | nil => rfl
  | cons d ds ih =>
      show ((t.take d).draw ds).cells = _
      rw [ih (fun e he => h e (.tail d he)), cells_take (h d List.mem_cons_self), Cursor.marks,
        List.foldl_append]
      rfl

end Terminal

/-! ## Pictures -/

/-- Characters for some of the cells. -/
abbrev Picture := Nat → Nat → Option Char

def Picture.over (p q : Picture) : Picture := fun col row => (p col row).or (q col row)

/-- A drawing lays a picture over what was shown. -/
def Paints (ds : List Draw) (p : Picture) : Prop :=
  ∀ (t : Terminal) col row, (t.draw ds).cells col row = (p col row).getD (t.cells col row)

theorem Paints.append {ds es : List Draw} {p q : Picture} (hd : Paints ds p) (he : Paints es q) :
    Paints (ds ++ es) (q.over p) := by
  intro t col row
  rw [Terminal.draw_append, he, hd, Picture.over]
  cases q col row with
  | none => rfl
  | some ch => rfl

/-- The marks of a drawing are a picture if they have one character for each of their cells. -/
theorem Prints.paints {ds : List Draw} {area : Mark → Prop} {p : Picture} (h : Prints ds area)
    (hclears : ∀ d ∈ ds, d.clears = false)
    (hp : ∀ m, area m ↔ p m.col m.row = some m.char) : Paints ds p := by
  intro t col row
  have hmarks (m : Mark) : m ∈ t.cursor.marks ds ↔ p m.col m.row = some m.char :=
    (h t.cursor m).trans (hp m)
  rw [Terminal.cells_draw hclears]
  cases hch : p col row with
  | none =>
      apply Cells.foldl_mark_of_none
      rintro m hm ⟨rfl, rfl⟩
      rw [hmarks, hch] at hm
      cases hm
  | some ch =>
      apply Cells.foldl_mark_of_mem ((hmarks ⟨col, row, ch⟩).mpr hch)
      rintro m hm ⟨rfl, rfl⟩
      rw [hmarks, hch] at hm
      exact (Option.some.inj hm).symm

end SpriteStage
