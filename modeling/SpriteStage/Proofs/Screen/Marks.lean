import SpriteStage.MenuBar

/-!
# Where characters are printed

A row of commands leaves marks on the terminal: each character in the cell under the cursor, which it
takes to the next column. Lines do not wrap. A drawing that moves the cursor before it prints leaves the
same marks wherever the cursor was; `Prints` says which ones, and drawings one after the other leave
the marks of each of them. What is printed without a move in between is one row of marks, in whatever
pieces and styles: `prints_moveTo`. The menu bar is such a row, whose text loses nothing of its items.
-/

namespace SpriteStage

/-- A character and the cell that it is printed in. -/
structure Mark where
  col : Nat
  row : Nat
  char : Char
deriving DecidableEq, Repr

def Draw.chars : Draw → List Char
  | .text s => s.toList
  | _ => []

def Draw.isInline : Draw → Bool
  | .moveTo _ _ => false
  | _ => true

/-- The cell in which the next character is printed. -/
structure Cursor where
  col : Nat
  row : Nat

namespace Cursor

def after (c : Cursor) : Draw → Cursor
  | .moveTo col row => ⟨col, row⟩
  | d => ⟨c.col + d.chars.length, c.row⟩

def line (c : Cursor) : List Char → List Mark
  | [] => []
  | ch :: cs => ⟨c.col, c.row, ch⟩ :: line ⟨c.col + 1, c.row⟩ cs

def marks (c : Cursor) : List Draw → List Mark
  | [] => []
  | d :: ds => c.line d.chars ++ marks (c.after d) ds

theorem mem_line {cs : List Char} {c : Cursor} {m : Mark} :
    m ∈ c.line cs ↔ m.row = c.row ∧ ∃ i, cs[i]? = some m.char ∧ m.col = c.col + i := by
  induction cs generalizing c with
  | nil => simp [line]
  | cons ch cs ih =>
      rw [line, List.mem_cons, ih]
      constructor
      · rintro (rfl | ⟨hrow, i, hi, hcol⟩)
        · exact ⟨rfl, 0, rfl, rfl⟩
        · exact ⟨hrow, i + 1, hi, by simp only at hcol; omega⟩
      · rintro ⟨hrow, i | i, hi, hcol⟩
        · left
          obtain ⟨col, row, char⟩ := m
          cases hi
          cases hrow
          cases hcol
          rfl
        · exact .inr ⟨hrow, i, hi, by simp only; omega⟩

theorem line_append (c : Cursor) (cs cs' : List Char) :
    c.line (cs ++ cs') = c.line cs ++ (⟨c.col + cs.length, c.row⟩ : Cursor).line cs' := by
  induction cs generalizing c with
  | nil => rfl
  | cons ch cs ih =>
      rw [List.cons_append, line, line, ih, List.cons_append, List.length_cons, Nat.add_assoc,
        Nat.add_comm 1]

theorem marks_append (c : Cursor) (ds es : List Draw) :
    c.marks (ds ++ es) = c.marks ds ++ (ds.foldl after c).marks es := by
  induction ds generalizing c with
  | nil => rfl
  | cons d ds ih => simp only [List.cons_append, marks, ih, List.append_assoc, List.foldl_cons]

/-- What is printed without a move of the cursor stands side by side. -/
theorem marks_of_inline {ds : List Draw} (h : ds.all Draw.isInline = true) (c : Cursor) :
    c.marks ds = c.line (ds.flatMap Draw.chars) := by
  induction ds generalizing c with
  | nil => rfl
  | cons d ds ih =>
      rw [List.all_cons, Bool.and_eq_true] at h
      have hafter : c.after d = ⟨c.col + d.chars.length, c.row⟩ := by
        cases d with
        | moveTo col row => cases h.1
        | _ => rfl
      rw [marks, ih h.2, hafter, List.flatMap_cons, line_append]

end Cursor

/-! ## The marks of a drawing -/

/-- The marks that a drawing leaves wherever the cursor was are the given ones. -/
def Prints (ds : List Draw) (area : Mark → Prop) : Prop := ∀ (c : Cursor) m, m ∈ c.marks ds ↔ area m

namespace Prints

variable {ds es : List Draw} {area area' : Mark → Prop}

theorem congr (h : Prints ds area) (hiff : ∀ m, area m ↔ area' m) : Prints ds area' :=
  fun c m => (h c m).trans (hiff m)

theorem nil : Prints [] fun _ => False := fun _ _ => iff_of_false List.not_mem_nil id

theorem append (hd : Prints ds area) (he : Prints es area') :
    Prints (ds ++ es) fun m => area m ∨ area' m := by
  intro c m
  rw [Cursor.marks_append, List.mem_append, hd, he]

/-- A command that neither prints nor moves the cursor. -/
theorem cons_silent {d : Draw} (hd : d.isInline = true ∧ d.chars = []) (h : Prints ds area) :
    Prints (d :: ds) area := by
  intro c m
  rw [Cursor.marks, hd.2]
  exact h _ m

theorem flatMap {α : Type} {f : α → List Draw} {area : α → Mark → Prop}
    (h : ∀ a, Prints (f a) (area a)) (as : List α) :
    Prints (as.flatMap f) fun m => ∃ a ∈ as, area a m := by
  induction as with
  | nil => exact nil.congr fun m => by simp
  | cons a as ih => exact ((h a).append ih).congr fun m => by simp

/-- A drawing that is made on a condition. -/
theorem guard (h : Prints ds area) (b : Bool) :
    Prints (if b then ds else []) fun m => b = true ∧ area m := by
  cases b with
  | false => exact nil.congr fun m => by simp
  | true => exact h.congr fun m => by simp

end Prints

def Reads (col row : Nat) (text : List Char) (m : Mark) : Prop :=
  m.row = row ∧ ∃ i, text[i]? = some m.char ∧ m.col = col + i

theorem prints_moveTo {ds : List Draw} (h : ds.all Draw.isInline = true) (col row : Nat) :
    Prints (.moveTo col row :: ds) (Reads col row (ds.flatMap Draw.chars)) := by
  intro c m
  have hmarks : c.marks (.moveTo col row :: ds) = (⟨col, row⟩ : Cursor).marks ds := rfl
  rw [hmarks, Cursor.marks_of_inline h, Cursor.mem_line]
  rfl

theorem prints_text (col row : Nat) (s : String) :
    Prints [.moveTo col row, .text s] (Reads col row s.toList) := by
  have hchars : [Draw.text s].flatMap Draw.chars = s.toList := List.flatMap_singleton _ _
  exact hchars ▸ prints_moveTo rfl col row

theorem reads_singleton {col row : Nat} {ch : Char} {m : Mark} :
    Reads col row [ch] m ↔ m = ⟨col, row, ch⟩ := by
  obtain ⟨mcol, mrow, mch⟩ := m
  simp only [Reads, List.getElem?_singleton, Option.ite_none_right_eq_some, Option.some.injEq,
    Mark.mk.injEq]
  constructor
  · rintro ⟨rfl, i, ⟨rfl, rfl⟩, rfl⟩
    exact ⟨rfl, rfl, rfl⟩
  · rintro ⟨rfl, rfl, rfl⟩
    exact ⟨rfl, 0, ⟨rfl, rfl⟩, rfl⟩

/-- A text from the first column on stays in front of a column if it is not longer. -/
theorem forall_reads_col_lt {row limit : Nat} {text : List Char} :
    (∀ m, Reads 0 row text m → m.col < limit) ↔ text.length ≤ limit := by
  constructor
  · intro hlt
    rcases Nat.eq_zero_or_pos text.length with hzero | hpos
    · omega
    · have hlast : text.length - 1 < text.length := by omega
      have hbelow : 0 + (text.length - 1) < limit :=
        hlt ⟨0 + (text.length - 1), row, text[text.length - 1]⟩
          ⟨rfl, _, List.getElem?_eq_getElem hlast, rfl⟩
      omega
  · rintro hle m ⟨_, i, hi, hcol⟩
    have hbelow := (List.getElem?_eq_some_iff.mp hi).1
    omega

@[simp] theorem all_isInline_styled (style : Option Style) (s : String) :
    (Draw.styled style s).all Draw.isInline = true := by
  cases style <;> rfl

@[simp] theorem flatMap_chars_styled (style : Option Style) (s : String) :
    (Draw.styled style s).flatMap Draw.chars = s.toList := by
  cases style <;> simp [Draw.styled, Draw.chars]

/-- A text in a style on a row that was cleared. -/
theorem prints_cleared (row : Nat) (style : Option Style) (s : String) :
    Prints ([.moveTo 0 row, .clearLine] ++ Draw.styled style s) (Reads 0 row s.toList) := by
  have hinline : (.clearLine :: Draw.styled style s).all Draw.isInline = true :=
    all_isInline_styled style s
  have hchars : (.clearLine :: Draw.styled style s).flatMap Draw.chars = s.toList :=
    flatMap_chars_styled style s
  exact hchars ▸ prints_moveTo hinline 0 row

/-! ## The menu bar -/

namespace MenuBar

def barText (items : List String) : List Char :=
  ' ' :: [' ', ' '].intercalate (items.map String.toList)

theorem flatMap_text_consDim (text : List Char) (rest : List Segment) :
    (consDim text rest).flatMap Segment.text = text ++ rest.flatMap Segment.text := by
  unfold consDim
  cases text with
  | nil => rfl
  | cons c cs => rfl

/-- The segments of an item are the item. -/
theorem flatMap_text_segments (cs : List Char) : (segments cs).flatMap Segment.text = cs := by
  fun_induction segments cs with
  | case1 cs outside hs =>
      rw [flatMap_text_consDim, List.flatMap_nil, ← hs, List.takeWhile_append_dropWhile]
  | case2 cs outside b r hs hr =>
      rw [flatMap_text_consDim, List.flatMap_singleton, ← hs, List.takeWhile_append_dropWhile]
  | case3 cs outside b r hs inside e rest hr ih =>
      have hr : inside ++ e :: rest = r := hr ▸ List.takeWhile_append_dropWhile
      rw [flatMap_text_consDim, List.flatMap_cons, ih, List.append_assoc, List.cons_append,
        List.singleton_append, hr, ← hs, List.takeWhile_append_dropWhile]

theorem flatMap_chars_item (s : String) : (item s).flatMap Draw.chars = s.toList := by
  have hsegment (g : Segment) :
      (Draw.styled g.style (String.ofList g.text)).flatMap Draw.chars = g.text := by simp
  rw [item, List.flatMap_assoc]
  simp only [hsegment, flatMap_text_segments]

theorem all_isInline_item (s : String) : (item s).all Draw.isInline = true := by
  simp [item]

def itemsRow (items : List String) : List Draw := [.text "  "].intercalate (items.map item)

theorem flatMap_chars_itemsRow (items : List String) :
    (itemsRow items).flatMap Draw.chars = [' ', ' '].intercalate (items.map String.toList) := by
  unfold itemsRow
  induction items with
  | nil => rfl
  | cons s items ih =>
      cases items with
      | nil => simp [flatMap_chars_item]
      | cons s' items =>
          rw [List.map_cons] at ih
          simp only [List.map_cons, List.intercalate_cons_cons, List.flatMap_append, ih,
            flatMap_chars_item]
          rfl

theorem all_isInline_itemsRow (items : List String) :
    (itemsRow items).all Draw.isInline = true := by
  unfold itemsRow
  induction items with
  | nil => rfl
  | cons s items ih =>
      cases items with
      | nil => simp [all_isInline_item]
      | cons s' items =>
          rw [List.map_cons] at ih
          simp only [List.map_cons, List.intercalate_cons_cons, List.all_append, ih,
            all_isInline_item]
          rfl

theorem prints_bar (row : Nat) (items : List String) :
    Prints (bar row items) (Reads 0 row (barText items)) := by
  have hinline : (.clearLine :: .text " " :: itemsRow items : List Draw).all Draw.isInline = true :=
    all_isInline_itemsRow items
  have hchars : (.clearLine :: .text " " :: itemsRow items : List Draw).flatMap Draw.chars =
      barText items := by
    rw [List.flatMap_cons, List.flatMap_cons, flatMap_chars_itemsRow]
    rfl
  exact hchars ▸ prints_moveTo hinline 0 row

end MenuBar

end SpriteStage
