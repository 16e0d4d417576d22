import Mathlib.Tactic.Choose
import SpriteStage.Proofs.Json.Spelling

/-!
# Well-formed texts

The grammar of JSON texts as such, without a meaning: space may stand around every part, a number
may be beyond every range, and an escape may write half a surrogate pair. A text of the grammar is
one value wherever a value may stand, and whoever does not want that value passes over it:
`WellFormed.passes`.
-/

namespace SpriteStage.Json

open Builder

/-! ## Space -/

structure Padded where
  before : List Char
  text : List Char
  after : List Char
  space : before.all isSpace = true ∧ after.all isSpace = true

def Padded.chars (p : Padded) : List Char := p.before ++ (p.text ++ p.after)

def bare (text : List Char) : Padded := ⟨[], text, [], rfl, rfl⟩

theorem chars_bare (text : List Char) : (bare text).chars = text := List.append_nil text

/-- Space is cut into nothing. -/
theorem feed_space {w : List Char} (h : w.all isSpace = true) (b : Builder) (cs : List Char) :
    b.feed (w ++ cs) = b.feed cs := by
  induction w with
  | nil => rfl
  | cons c w ih =>
      rw [List.all_cons, Bool.and_eq_true] at h
      rw [← ih h.2, feed, feed, List.cons_append, tokens_cons_space h.1]

theorem endsNumber_append {w rest : List Char} (h : w.all isSpace = true)
    (hrest : endsNumber rest = true) : endsNumber (w ++ rest) = true := by
  cases w with
  | nil => exact hrest
  | cons c w =>
      rw [List.all_cons, Bool.and_eq_true] at h
      obtain rfl | rfl | rfl | rfl := isSpace_cases h.1 <;> rfl

theorem Spells.padded {p : Padded} {t : Tree} (h : Spells p.text t) : Spells p.chars t := by
  intro b fs rest hb hrest
  rw [Padded.chars, List.append_assoc, List.append_assoc, feed_space p.space.1,
    h b fs _ hb (endsNumber_append p.space.2 hrest), feed_space p.space.2]

theorem IsString.padded {p : Padded} {k : Scan String} (h : IsString p.text k) :
    IsString p.chars k := by
  intro b rest
  rw [Padded.chars, List.append_assoc, List.append_assoc, feed_space p.space.1, h,
    feed_space p.space.2]

/-- Space behind an opening bracket, where a container that holds nothing has no other part that it
could stand around. -/
theorem Spells.space_behind {c : Char} {k : Token} {w cs : List Char} {t : Tree}
    (hc : punctuation? c = some k) (hw : w.all isSpace = true) (h : Spells (c :: cs) t) :
    Spells (c :: (w ++ cs)) t := by
  intro b fs rest hb hrest
  rw [← h b fs rest hb hrest, List.cons_append, List.cons_append, feed_punctuation hc,
    feed_punctuation hc, List.append_assoc, feed_space hw]

/-! ## Numbers -/

def IsDigits (ds : List Char) : Prop := ds.all Char.isDigit = true ∧ ds ≠ []

def IsWhole (ds : List Char) : Prop := IsDigits ds ∧ ∀ d ds', ds ≠ '0' :: d :: ds'

inductive IsFraction : List Char → Prop
  | none : IsFraction []
  | some {ds : List Char} (h : IsDigits ds) : IsFraction ('.' :: ds)

inductive IsExponent : List Char → Prop
  | none : IsExponent []
  | unsigned {e : Char} {ds : List Char} (he : e = 'e' ∨ e = 'E') (h : IsDigits ds) :
      IsExponent (e :: ds)
  | signed {e sign : Char} {ds : List Char} (he : e = 'e' ∨ e = 'E')
      (hsign : sign = '+' ∨ sign = '-') (h : IsDigits ds) : IsExponent (e :: sign :: ds)

inductive IsNumber : List Char → Prop
  | unsigned {ds f e : List Char} (hw : IsWhole ds) (hf : IsFraction f) (he : IsExponent e) :
      IsNumber (ds ++ (f ++ e))
  | negative {ds f e : List Char} (hw : IsWhole ds) (hf : IsFraction f) (he : IsExponent e) :
      IsNumber ('-' :: (ds ++ (f ++ e)))

section Numbers

variable {ds f e u : List Char}

/-- A text does not go on with a digit. -/
def EndsDigits (u : List Char) : Prop := ∀ c ∈ u.head?, c.isDigit = false

theorem IsDigits.isDigit {d : Char} (h : IsDigits ds) (hd : d ∈ ds) : d.isDigit = true :=
  List.all_eq_true.mp h.1 d hd

theorem IsDigits.digits1 (h : IsDigits ds) (hu : EndsDigits u) :
    digits1 (ds ++ u) = .ok (ds, u) :=
  digits1_eq_ok.mpr ⟨splitDigits_of_all (fun _ => h.isDigit) hu, h.2⟩

theorem IsWhole.wholePart (h : IsWhole ds) (hu : EndsDigits u) :
    wholePart (ds ++ u) = .ok (ds, u) :=
  wholePart_eq_ok.mpr ⟨h.1.digits1 hu, h.2⟩

theorem IsExponent.endsDigits (h : IsExponent e) : EndsDigits e := by
  rintro c hc
  cases h with
  | none => cases hc
  | unsigned he | signed he =>
      cases hc
      rcases he with rfl | rfl <;> rfl

theorem IsFraction.endsDigits (h : IsFraction f) (he : IsExponent e) : EndsDigits (f ++ e) := by
  cases h with
  | none => exact he.endsDigits
  | some _ =>
      rintro c hc
      cases hc
      rfl

theorem IsFraction.fractionPart (h : IsFraction f) (he : IsExponent e) :
    ∃ x, fractionPart (f ++ e) = .ok (x, e) := by
  cases h with
  | none =>
      cases he with
      | none => exact ⟨_, rfl⟩
      | unsigned he | signed he =>
          exact ⟨_, fractionPart_of_ne (by rcases he with rfl | rfl <;> decide) _⟩
  | some hds =>
      rw [List.cons_append, Json.fractionPart, hds.digits1 he.endsDigits]
      exact ⟨_, rfl⟩

theorem splitSign_of_isDigits (h : IsDigits ds) : Decimal.splitSign ds = (false, ds) := by
  cases ds with
  | nil => rfl
  | cons d ds =>
      have hd := h.isDigit List.mem_cons_self
      unfold Decimal.splitSign
      split
      · next heq => cases heq; cases hd
      · next heq => cases heq; cases hd
      · rfl

theorem IsExponent.exponentPart (h : IsExponent e) : ∃ x, exponentPart e = .ok (x, []) := by
  have hmark {c : Char} (hc : c = 'e' ∨ c = 'E') : marksExponent c = true := by
    rcases hc with rfl | rfl <;> rfl
  have hdigits {ds : List Char} (h : IsDigits ds) : digits1 ds = .ok (ds, []) := by
    simpa using h.digits1 (u := []) nofun
  cases h with
  | none => exact ⟨_, rfl⟩
  | unsigned hc h =>
      rw [exponentPart_of_mark (hmark hc), splitSign_of_isDigits h, hdigits h]
      exact ⟨_, rfl⟩
  | @signed c sign ds hc hsign h =>
      have hsplit : (Decimal.splitSign (sign :: ds)).2 = ds := by
        rcases hsign with rfl | rfl <;> rfl
      rw [exponentPart_of_mark (hmark hc), hsplit, hdigits h]
      exact ⟨_, rfl⟩

theorem numeral_of_parts (hw : IsWhole ds) (hf : IsFraction f) (he : IsExponent e)
    (negative : Bool) : ∃ n, numeral negative (ds ++ (f ++ e)) = .ok (n, []) := by
  obtain ⟨fraction, hfraction⟩ := hf.fractionPart he
  obtain ⟨exponent, hexponent⟩ := he.exponentPart
  exact ⟨_, numeral_eq_ok.mpr
    ⟨_, _, _, _, _, hw.wholePart (hf.endsDigits he), hfraction, hexponent, rfl⟩⟩

/-- A number is one token, whatever its value. -/
theorem spells_unsigned (hw : IsWhole ds) (hf : IsFraction f) (he : IsExponent e) :
    ∃ n, numeral false (ds ++ (f ++ e)) = .ok (n, []) ∧
      Spells (ds ++ (f ++ e)) (.num ⟨n.number, .ok ()⟩) := by
  obtain ⟨n, hn⟩ := numeral_of_parts hw hf he false
  obtain ⟨d, ds', rfl⟩ := List.exists_cons_of_ne_nil hw.1.2
  have hd := hw.1.isDigit List.mem_cons_self
  have hat := numberToken_of_numeral hn
  rw [List.cons_append, ← tokenAt_of_isDigit hd] at hat
  exact ⟨n, hn, .of_token (isSpace_of_isDigit hd) hat (fun _ hu => hu) nofun fun _ => rfl⟩

theorem spells_negative (hw : IsWhole ds) (hf : IsFraction f) (he : IsExponent e) :
    ∃ n, numeral true (ds ++ (f ++ e)) = .ok (n, []) ∧
      Spells ('-' :: (ds ++ (f ++ e))) (.num ⟨n.number, .ok ()⟩) := by
  obtain ⟨n, hn⟩ := numeral_of_parts hw hf he true
  exact ⟨n, hn, .of_token rfl (numberToken_of_numeral hn) (fun _ hu => hu) nofun fun _ => rfl⟩

theorem IsNumber.spells {cs : List Char} (h : IsNumber cs) :
    ∃ n, Spells cs (.num ⟨n, .ok ()⟩) := by
  cases h with
  | unsigned hw hf he =>
      obtain ⟨n, -, hn⟩ := spells_unsigned hw hf he
      exact ⟨_, hn⟩
  | negative hw hf he =>
      obtain ⟨n, -, hn⟩ := spells_negative hw hf he
      exact ⟨_, hn⟩

end Numbers

/-! ## Values -/

structure Member where
  /-- The key with its quotes. -/
  name : Padded
  value : Padded

def Member.chars (m : Member) : List Char := m.name.chars ++ ':' :: m.value.chars

/-- A well-formed text. -/
inductive WellFormed : List Char → Prop
  | null : WellFormed ['n', 'u', 'l', 'l']
  | true : WellFormed ['t', 'r', 'u', 'e']
  | false : WellFormed ['f', 'a', 'l', 's', 'e']
  | number {cs : List Char} (h : IsNumber cs) : WellFormed cs
  | string {w : List Char} (h : StringBody w) : WellFormed ('"' :: w ++ ['"'])
  | array (space : List Char) (items : List Padded) (hspace : space.all isSpace = Bool.true)
      (h : ∀ p ∈ items, WellFormed p.text) :
      WellFormed ('[' :: (space ++ (commaSeparated (items.map Padded.chars) ++ [']'])))
  | object (space : List Char) (members : List Member) (hspace : space.all isSpace = Bool.true)
      (hname : ∀ m ∈ members, ∃ w, StringBody w ∧ m.name.text = '"' :: w ++ ['"'])
      (h : ∀ m ∈ members, WellFormed m.value.text) :
      WellFormed ('{' :: (space ++ (commaSeparated (members.map Member.chars) ++ ['}'])))

section Passing

variable {α : Type} {xs : List α} {tree : α → Tree} {key : α → Scan String}

theorem skipItems_map (h : ∀ x ∈ xs, (tree x).skip = .ok ()) :
    Tree.skipItems (xs.map tree) = .ok () := by
  induction xs with
  | nil => rfl
  | cons x xs ih =>
      rw [List.map_cons, Tree.skipItems, h x List.mem_cons_self]
      exact ih fun y hy => h y (.tail x hy)

theorem skipEntries_map (hkey : ∀ x ∈ xs, (key x).skip = .ok ())
    (h : ∀ x ∈ xs, (tree x).skip = .ok ()) :
    Tree.skipEntries (xs.map fun x => (.str (key x), tree x)) = .ok () := by
  induction xs with
  | nil => rfl
  | cons x xs ih =>
      rw [List.map_cons, Tree.skipEntries, Tree.skipKey, hkey x List.mem_cons_self,
        h x List.mem_cons_self]
      exact ih (fun y hy => hkey y (.tail x hy)) fun y hy => h y (.tail x hy)

end Passing

/-- A well-formed text is one value, and whoever does not want it passes over it. -/
theorem WellFormed.passes {cs : List Char} (h : WellFormed cs) :
    ∃ t, Spells cs t ∧ t.skip = .ok () := by
  induction h with
  | null => exact ⟨_, spells_null, rfl⟩
  | true => exact ⟨_, spells_true, rfl⟩
  | false => exact ⟨_, spells_false, rfl⟩
  | number h =>
      obtain ⟨n, hn⟩ := h.spells
      exact ⟨_, hn, rfl⟩
  | string h => exact ⟨_, h.isString.spells, rfl⟩
  | array space items hspace _ ih =>
      choose! tree hspells hskip using ih
      refine ⟨_, (spells_array fun p hp => (hspells p hp).padded).space_behind rfl hspace, ?_⟩
      rw [Tree.skip, skipItems_map hskip]
      rfl
  | object space members hspace hname _ ih =>
      choose! tree hspells hskip using ih
      choose! body hbody htext using hname
      have hstring (m) (hm : m ∈ members) := (htext m hm ▸ (hbody m hm).isString).padded
      refine ⟨_, (spells_object hstring fun m hm => (hspells m hm).padded).space_behind rfl hspace,
        ?_⟩
      rw [Tree.skip, skipEntries_map (fun _ _ => rfl) hskip]
      rfl

/-! ## Objects -/

structure Member.Sound (m : Member) : Prop where
  name : ∃ w, StringBody w ∧ m.name.text = '"' :: w ++ ['"']
  value : WellFormed m.value.text

inductive IsObject (ms : List Member) : List Char → Prop
  | mk (space : List Char) (hspace : space.all isSpace = true) (h : ∀ m ∈ ms, m.Sound) :
      IsObject ms ('{' :: (space ++ (commaSeparated (ms.map Member.chars) ++ ['}'])))

section Objects

variable {ms : List Member} {m : Member} {text : List Char}

theorem IsObject.sound (h : IsObject ms text) (hm : m ∈ ms) : m.Sound := by
  obtain ⟨_, -, hsound⟩ := h
  exact hsound m hm

theorem IsObject.wellFormed (h : IsObject ms text) : WellFormed text := by
  obtain ⟨space, hspace, hsound⟩ := h
  exact .object space ms hspace (fun m hm => (hsound m hm).name) fun m hm => (hsound m hm).value

def plainMember (key : String) (value : List Char) : Member := ⟨bare (quoted key), bare value⟩

def plainObject (ms : List Member) : List Char :=
  '{' :: ([] ++ (commaSeparated (ms.map Member.chars) ++ ['}']))

theorem sound_plainMember (key : String) {value : List Char} (h : WellFormed value) :
    (plainMember key value).Sound := by
  obtain ⟨w, hw, htext⟩ := quotes_quoted key
  exact ⟨⟨w, hw.stringBody, htext⟩, h⟩

theorem isObject_plainObject (h : ∀ m ∈ ms, m.Sound) : IsObject ms (plainObject ms) :=
  .mk [] rfl h

end Objects

end SpriteStage.Json
