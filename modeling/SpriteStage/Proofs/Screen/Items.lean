import Mathlib.Data.List.TakeWhile
import SpriteStage.Proofs.Screen.Marks

/-!
# How a menu item is printed

The segments of a menu item are the item, each is of one of three kinds, and only the last may be a
bracket that is never closed. A style lasts to the end of its segment: `inked` says with which
styles the characters of a drawing are printed, and what follows an item is printed as if there had
been no item.
-/

namespace SpriteStage

/-! ## Styles -/

def Draw.stylesAfter (active : List Style) : Draw → List Style
  | .style st => st :: active
  | .plain => []
  | _ => active

/-- The characters of a drawing, each with the styles in force when it is printed. -/
def inked (active : List Style) : List Draw → List (Char × List Style)
  | [] => []
  | d :: ds => (d.chars.map fun c => (c, active)) ++ inked (d.stylesAfter active) ds

/-- A style ends with its text. -/
theorem inked_styled (style : Option Style) (s : String) (ds : List Draw) :
    inked [] (Draw.styled style s ++ ds) =
      (s.toList.map fun c => (c, style.toList)) ++ inked [] ds := by
  cases style with
  | none => rfl
  | some st =>
      show inked [st] (.text s :: .plain :: ds) = _
      simp [inked, Draw.chars, Draw.stylesAfter]

namespace MenuBar

/-! ## Segments -/

/-- The three kinds of segments: brackets up to the first closing one, in bold; something without an
opening bracket, dim; a bracket that is never closed, as it is. None of them is empty. -/
inductive Segment.Fits : Segment → Prop
  | bold {inside : List Char} (h : ']' ∉ inside) : Fits ⟨some .bold, '[' :: inside ++ [']']⟩
  | dim {text : List Char} (h : '[' ∉ text) (hne : text ≠ []) : Fits ⟨some .dim, text⟩
  | unclosed {rest : List Char} (h : ']' ∉ rest) : Fits ⟨none, '[' :: rest⟩

theorem Segment.Fits.text_ne_nil {g : Segment} (h : g.Fits) : g.text ≠ [] := by
  cases h with
  | bold => exact List.cons_ne_nil _ _
  | dim _ hne => exact hne
  | unclosed => exact List.cons_ne_nil _ _

/-- A text is cut into segments of the three kinds, of which only the last may be unclosed. -/
structure Cuts (cs : List Char) (gs : List Segment) : Prop where
  text : gs.flatMap Segment.text = cs
  fits : ∀ g ∈ gs, g.Fits
  styled : ∀ g ∈ gs.dropLast, g.style ≠ none

theorem cuts_nil : Cuts [] [] := ⟨rfl, nofun, nofun⟩

theorem cuts_unclosed {rest : List Char} (h : ']' ∉ rest) :
    Cuts ('[' :: rest) [⟨none, '[' :: rest⟩] :=
  ⟨List.flatMap_singleton _ _, List.forall_mem_singleton.mpr (.unclosed h), nofun⟩

/-- A styled segment in front. -/
theorem Cuts.cons {cs : List Char} {gs : List Segment} (h : Cuts cs gs) {g : Segment} (hg : g.Fits)
    (hstyle : g.style ≠ none) : Cuts (g.text ++ cs) (g :: gs) := by
  constructor
  · rw [List.flatMap_cons, h.text]
  · exact List.forall_mem_cons.mpr ⟨hg, h.fits⟩
  · intro k hk
    cases gs with
    | nil => cases hk
    | cons g' gs =>
        rw [List.dropLast_cons_cons, List.mem_cons] at hk
        rcases hk with rfl | hk
        · exact hstyle
        · exact h.styled k hk

theorem Cuts.consDim {cs : List Char} {gs : List Segment} (h : Cuts cs gs) {text : List Char}
    (htext : '[' ∉ text) : Cuts (text ++ cs) (consDim text gs) := by
  unfold MenuBar.consDim
  by_cases hempty : text = []
  · subst hempty
    exact h
  · rw [if_neg (by simpa using hempty)]
    exact h.cons (.dim htext hempty) nofun

/-- A character does not stand in front of its first occurrence. -/
theorem not_mem_takeWhile (c : Char) (cs : List Char) : c ∉ cs.takeWhile (· != c) := by
  intro hc
  have hne := List.mem_takeWhile_imp hc
  simp at hne

theorem eq_of_dropWhile {c d : Char} {cs rest : List Char} (h : cs.dropWhile (· != c) = d :: rest) :
    d = c := by
  have hd := List.head?_dropWhile_not (· != c) cs
  rw [h] at hd
  simpa using hd

theorem cuts_segments (cs : List Char) : Cuts cs (segments cs) := by
  fun_induction segments cs with
  | case1 cs outside hs =>
      have hcs : outside ++ [] = cs := hs ▸ List.takeWhile_append_dropWhile
      exact hcs ▸ cuts_nil.consDim (not_mem_takeWhile '[' cs)
  | case2 cs outside b r hs hr =>
      have hcs : outside ++ b :: r = cs := hs ▸ List.takeWhile_append_dropWhile
      obtain rfl := eq_of_dropWhile hs
      -- nothing in front of the end is a closing bracket
      have hopen : ']' ∉ r := by
        have hr : r.takeWhile (· != ']') = r := by
          simpa [hr] using List.takeWhile_append_dropWhile (p := (· != ']')) (l := r)
        exact hr ▸ not_mem_takeWhile ']' r
      exact hcs ▸ (cuts_unclosed hopen).consDim (not_mem_takeWhile '[' cs)
  | case3 cs outside b r hs inside e rest hr ih =>
      have hcs : outside ++ b :: r = cs := hs ▸ List.takeWhile_append_dropWhile
      have hinside : inside ++ e :: rest = r := hr ▸ List.takeWhile_append_dropWhile
      obtain rfl := eq_of_dropWhile hs
      obtain rfl := eq_of_dropWhile hr
      have hbold := (ih.cons (.bold (not_mem_takeWhile ']' r)) (Option.some_ne_none _)).consDim
        (not_mem_takeWhile '[' cs)
      rw [← hcs, ← hinside]
      simpa using hbold

/-! ## Items -/

/-- What follows the segments is printed without their styles. -/
theorem inked_segments (gs : List Segment) (ds : List Draw) :
    inked [] ((gs.flatMap fun g => Draw.styled g.style (String.ofList g.text)) ++ ds) =
      (gs.flatMap fun g => g.text.map fun c => (c, g.style.toList)) ++ inked [] ds := by
  induction gs with
  | nil => rfl
  | cons g gs ih =>
      rw [List.flatMap_cons, List.append_assoc, inked_styled, ih, String.toList_ofList,
        List.flatMap_cons, List.append_assoc]

/-- **A menu item is printed whole, and its styles end with it.** What is printed for a text is a
row of segments, each of which ends its style. Together they are the text; a bold one is a bracket
with all up to the first closing one, a dim one holds no opening bracket, only the last may be
without a style, and it is a bracket that is never closed; none is empty. Whatever follows is
printed as if there had been no item. -/
theorem prints_items (s : String) : ∃ gs : List Segment,
    item s = (gs.flatMap fun g => match g.style with
      | none => [.text (String.ofList g.text)]
      | some st => [.style st, .text (String.ofList g.text), .plain]) ∧
    Cuts s.toList gs ∧ (∀ g ∈ gs, g.text ≠ []) ∧
    ∀ ds, inked [] (item s ++ ds) =
      (gs.flatMap fun g => g.text.map fun c => (c, g.style.toList)) ++ inked [] ds := by
  have hcuts := cuts_segments s.toList
  exact ⟨segments s.toList, rfl, hcuts, fun g hg => (hcuts.fits g hg).text_ne_nil,
    inked_segments (segments s.toList)⟩

end MenuBar

end SpriteStage
