import SpriteStage.Json.Reading
import SpriteStage.Proofs.Json.Numbers

/-!
# What a well-formed text is read as

The tree of a well-formed text tells its kind, and the readers of strings and of numbers give back what
is written: the string between the quotes, the number of the digits, a double that stands for them.
-/

namespace SpriteStage.Json

/-- The tree of a text that stands alone. -/
def treeOf (text : List Char) : Tree := (Document.ofText text).tree

variable {text ds f e r : List Char} {t : Tree} {k : Nat}

theorem Spells.treeOf_eq (h : Spells text t) : treeOf text = t := by
  rw [treeOf, h.ofText]

theorem WellFormed.spells (h : WellFormed text) : Spells text (treeOf text) := by
  obtain ⟨t, ht, -⟩ := h.passes
  rwa [ht.treeOf_eq]

theorem WellFormed.skip_treeOf (h : WellFormed text) : (treeOf text).skip = .ok () := by
  obtain ⟨t, ht, hskip⟩ := h.passes
  rwa [ht.treeOf_eq]

/-! ## Kinds -/

/-- The kind of a text, and the tree that a text of this kind has. -/
inductive Kind : List Char → Tree → Prop
  | null : Kind ['n', 'u', 'l', 'l'] .null
  | bool (text : List Char) (b : Bool) : Kind text (.bool b)
  | unsigned {ds f e : List Char} {n : Numeral} (hw : IsWhole ds) (hf : IsFraction f)
      (he : IsExponent e) (hn : numeral false (ds ++ (f ++ e)) = .ok (n, [])) :
      Kind (ds ++ (f ++ e)) (.num ⟨n.number, .ok ()⟩)
  | negative {ds f e : List Char} {n : Numeral} (hw : IsWhole ds) (hf : IsFraction f)
      (he : IsExponent e) (hn : numeral true (ds ++ (f ++ e)) = .ok (n, [])) :
      Kind ('-' :: (ds ++ (f ++ e))) (.num ⟨n.number, .ok ()⟩)
  | string {w : List Char} (h : StringBody w) :
      Kind ('"' :: w ++ ['"']) (.str ⟨readString [] (w ++ ['"']), .ok ()⟩)
  | array (text : List Char) (items : List Tree) : Kind text (.arr items .closed)
  | object {members : List Member} {text : List Char} (h : IsObject members text)
      (entries : List (Tree × Tree)) : Kind text (.obj entries .closed)

theorem WellFormed.kind (h : WellFormed text) : Kind text (treeOf text) := by
  cases h with
  | null => exact spells_null.treeOf_eq ▸ .null
  | true => exact spells_true.treeOf_eq ▸ .bool _ _
  | false => exact spells_false.treeOf_eq ▸ .bool _ _
  | number h =>
      cases h with
      | unsigned hw hf he =>
          obtain ⟨n, hn, hspells⟩ := spells_unsigned hw hf he
          exact hspells.treeOf_eq ▸ .unsigned hw hf he hn
      | negative hw hf he =>
          obtain ⟨n, hn, hspells⟩ := spells_negative hw hf he
          exact hspells.treeOf_eq ▸ .negative hw hf he hn
  | string h => exact h.isString.spells.treeOf_eq ▸ .string h
  | array space items hspace h =>
      have hspells := (spells_array fun p hp => (h p hp).spells.padded).space_behind rfl hspace
      exact hspells.treeOf_eq ▸ .array _ _
  | object space members hspace hname h =>
      choose! body hbody htext using hname
      have hstring (m) (hm : m ∈ members) := (htext m hm ▸ (hbody m hm).isString).padded
      have hspells := (spells_object hstring fun m hm => (h m hm).spells.padded).space_behind rfl
        hspace
      have hsound (m) (hm : m ∈ members) : m.Sound := ⟨⟨_, hbody m hm, htext m hm⟩, h m hm⟩
      exact hspells.treeOf_eq ▸ .object (.mk space hspace hsound) _

/-- A text that is read as a string is that string between quotes. -/
theorem WellFormed.quotes {s : String} (h : WellFormed text)
    (hread : (treeOf text).readString = .ok s) : Quotes text s := by
  have hkind := h.kind
  generalize treeOf text = t at hkind hread
  cases hkind with
  | string hbody => exact hbody.quotes_iff.mp hread
  | _ => cases hread

/-- A text that is read as an object is one. -/
theorem WellFormed.exists_isObject {entries : List (Tree × Tree)} {tail : Tail}
    (h : WellFormed text) (htree : treeOf text = .obj entries tail) : ∃ ms, IsObject ms text := by
  have hkind := h.kind
  rw [htree] at hkind
  cases hkind with
  | object h => exact ⟨_, h⟩

/-! ## Whole numbers -/

theorem digitChar_of_isDigit {c : Char} (h : c.isDigit = true) :
    c.toNat - '0'.toNat < 10 ∧ Nat.digitChar (c.toNat - '0'.toNat) = c := by
  have hrange : 48 ≤ c.toNat ∧ c.toNat ≤ 57 := Char.isDigit_iff_toNat.mp h
  have hchar : ∀ m < 10, Nat.digitChar m = Char.ofNat (m + 48) := by decide
  have hlt : c.toNat - '0'.toNat < 10 := by
    change c.toNat - 48 < 10
    omega
  refine ⟨hlt, ?_⟩
  rw [hchar _ hlt]
  change Char.ofNat (c.toNat - 48 + 48) = c
  rw [Nat.sub_add_cancel hrange.1, Char.ofNat_toNat]

/-- A row of digits without a needless zero in front stays one when its last digit is cut off. -/
theorem IsWhole.of_append_singleton {d : Char} (h : IsWhole (ds ++ [d])) (hne : ds ≠ []) :
    IsWhole ds ∧ ∀ ds', ds ≠ '0' :: ds' := by
  have hzero : ∀ ds', ds ≠ '0' :: ds' := by
    rintro ds' rfl
    have hne' : ds' ++ [d] ≠ [] := List.append_ne_nil_of_right_ne_nil ds' nofun
    obtain ⟨c, cs, hcs⟩ := List.exists_cons_of_ne_nil hne'
    exact h.2 c cs (by rw [List.cons_append, hcs])
  have hdigits : ds.all Char.isDigit = true := by
    have hall := h.1.1
    rw [List.all_append, Bool.and_eq_true] at hall
    exact hall.1
  exact ⟨⟨⟨hdigits, hne⟩, fun d ds' => hzero (d :: ds')⟩, hzero⟩

/-- The digits of a number are those that it is written with. -/
theorem IsWhole.toDigits (hds : IsWhole ds) : Nat.toDigits 10 (Decimal.digitsValue ds) = ds := by
  induction ds using List.reverseRecOn with
  | nil => exact absurd rfl hds.1.2
  | append_singleton ds d ih =>
      obtain ⟨hlt, hchar⟩ := digitChar_of_isDigit (hds.1.isDigit (d := d) (by simp))
      rw [Decimal.digitsValue_append, Decimal.digitsValue_singleton, List.length_singleton, pow_one,
        Nat.mul_comm]
      by_cases hne : ds = []
      · subst hne
        change Nat.toDigits 10 (10 * 0 + (d.toNat - '0'.toNat)) = [d]
        rw [Nat.mul_zero, Nat.zero_add, Nat.toDigits_of_lt_base hlt, hchar]
      · obtain ⟨hwhole, hzero⟩ := hds.of_append_singleton hne
        have hinit := ih hwhole
        have hpos : 0 < Decimal.digitsValue ds := by
          refine Nat.pos_of_ne_zero fun hnil => ?_
          rw [hnil] at hinit
          exact hzero [] hinit.symm
        rw [← Nat.toDigits_append_toDigits (by decide) hpos hlt, hinit,
          Nat.toDigits_of_lt_base hlt, hchar]

theorem wellFormed_toDigits (n : Nat) : WellFormed (Nat.toDigits 10 n) := by
  have hdigits : IsDigits (Nat.toDigits 10 n) :=
    ⟨List.all_eq_true.mpr fun _ => Nat.isDigit_of_mem_toDigits (by decide) (by decide),
      Nat.toDigits_ne_nil⟩
  have hwhole : IsWhole (Nat.toDigits 10 n) :=
    ⟨hdigits, (wholePart_eq_ok.mp (wholePart_toDigits n)).2⟩
  have hnumber := IsNumber.unsigned hwhole .none .none
  rw [List.append_nil, List.append_nil] at hnumber
  exact .number hnumber

/-- Only digits are a whole number that is not negative. -/
theorem Numeral.parts_of_number {n : Numeral} (h : n.number = .ok (.int (.ofNat k))) :
    n.negative = false ∧ n.fraction = none ∧ n.exponent = none ∧ Decimal.digitsValue n.whole = k := by
  rcases number_cases h with ⟨j, hj, hf, he, hk⟩ | ⟨_, _, _, _, _, -, -, -, hm⟩
  · rcases hk with ⟨hnegative, hk⟩ | ⟨-, hne, hk⟩
    · obtain rfl : k = j := Int.ofNat_inj.mp (Number.int.inj hk)
      obtain ⟨taken, htaken, hvalue⟩ := Decimal.fitDigits_eq hj
      rw [List.append_nil] at htaken
      exact ⟨hnegative, hf, he, by rw [hvalue, htaken, Nat.zero_mul, Nat.zero_add]⟩
    · have hsame : (k : Int) = -j := Number.int.inj hk
      omega
  · cases hm

/-- Digits, a fraction and an exponent are a whole number only if they are nothing but its digits.
-/
theorem eq_toDigits_of_numeral {n : Numeral} (hw : IsWhole ds) (hf : IsFraction f)
    (he : IsExponent e) (hn : numeral false (ds ++ (f ++ e)) = .ok (n, []))
    (h : n.number = .ok (.int (.ofNat k))) : ds ++ (f ++ e) = Nat.toDigits 10 k := by
  obtain ⟨-, hnone, hnone', rfl⟩ := Numeral.parts_of_number h
  obtain ⟨-, hwhole, hfraction, -, hexponent⟩ := writes_of_numeral hw hf he hn
  rw [hnone] at hfraction
  rw [hfraction.eq_nil, hexponent hnone', List.append_nil, List.append_nil, hwhole, hw.toDigits]

theorem number_of_readNat {n : Numeral} (h : Tree.readNat (.num ⟨n.number, .ok ()⟩) = .ok k) :
    n.number = .ok (.int (.ofNat k)) := by
  obtain ⟨m, hm, hk⟩ := bind_eq_ok.mp h
  split at hk
  · cases hk
    exact hm
  · cases hk

/-- A text stands for a whole number that is not negative: it is the row of its digits. -/
def WritesNat (text : List Char) (k : Nat) : Prop := text = Nat.toDigits 10 k

theorem WellFormed.writesNat (h : WellFormed text) (hread : (treeOf text).readNat = .ok k) :
    WritesNat text k := by
  have hkind := h.kind
  generalize treeOf text = t at hkind hread
  cases hkind with
  | unsigned hw hf he hn => exact eq_toDigits_of_numeral hw hf he hn (number_of_readNat hread)
  | negative hw hf he hn =>
      obtain ⟨hpositive, -⟩ := Numeral.parts_of_number (number_of_readNat hread)
      obtain ⟨hnegative, -⟩ := writes_of_numeral hw hf he hn
      exact absurd (hpositive.symm.trans hnegative) Bool.false_ne_true
  | _ => cases hread

/-! ## Other values -/

theorem number_of_readFloat {n : Numeral} {x : Float}
    (h : Tree.readFloat (.num ⟨n.number, .ok ()⟩) = .ok x) :
    ∃ m, n.number = .ok m ∧ m.toFloat = x := by
  cases hnumber : n.number with
  | error f => simp [Tree.readFloat, hnumber, Except.map] at h
  | ok m =>
      simp only [Tree.readFloat, hnumber, Except.map, Except.ok.injEq] at h
      exact ⟨m, rfl, h⟩

/-- A number that is read as a double stands for its digits and its power of ten. -/
theorem denotes_of_numeral {negative : Bool} {n : Numeral} {x : Float} (hw : IsWhole ds)
    (hf : IsFraction f) (he : IsExponent e) (hn : numeral negative (ds ++ (f ++ e)) = .ok (n, []))
    (hread : Tree.readFloat (.num ⟨n.number, .ok ()⟩) = .ok x) :
    ∃ fs k, WritesFraction f fs ∧ WritesExponent e k ∧
      Decimal.Denotes negative (Decimal.digitsValue (ds ++ fs)) (k - fs.length) x := by
  obtain ⟨m, hm, rfl⟩ := number_of_readFloat hread
  obtain ⟨rfl, rfl, hfraction, hexponent, -⟩ := writes_of_numeral hw hf he hn
  refine ⟨_, _, hfraction, hexponent, ?_⟩
  exact Numeral.denotes_number (fun _ => hw.1.isDigit) (fun _ => hfraction.isDigit) hm

theorem WellFormed.writesFloat {x : Float} (h : WellFormed text)
    (hread : (treeOf text).readFloat = .ok x) : WritesFloat text x := by
  have hkind := h.kind
  generalize treeOf text = t at hkind hread
  cases hkind with
  | unsigned hw hf he hn =>
      obtain ⟨fs, k, hfraction, hexponent, hdenotes⟩ := denotes_of_numeral hw hf he hn hread
      exact ⟨_, _, _, .unsigned hw hfraction hexponent, hdenotes⟩
  | negative hw hf he hn =>
      obtain ⟨fs, k, hfraction, hexponent, hdenotes⟩ := denotes_of_numeral hw hf he hn hread
      exact ⟨_, _, _, .negative hw hfraction hexponent, hdenotes⟩
  | _ => cases hread

/-- A text stands for a value that may be left open: it is `null`, or it stands for a value. -/
def WritesOption {α : Type} (Means : List Char → α → Prop) (text : List Char) : Option α → Prop
  | none => text = ['n', 'u', 'l', 'l']
  | some a => Means text a

theorem WellFormed.writesOption {α : Type} {read : Tree → Except Fault α}
    {Means : List Char → α → Prop} {o : Option α} (h : WellFormed text)
    (hmeans : ∀ a, read (treeOf text) = .ok a → Means text a)
    (hread : (treeOf text).readOption read = .ok o) : WritesOption Means text o := by
  have hkind := h.kind
  generalize treeOf text = t at hkind hread hmeans
  unfold Tree.readOption at hread
  split at hread
  · cases hread
    cases hkind
    rfl
  · cases ha : read t with
    | error f => rw [ha] at hread; cases hread
    | ok a =>
        rw [ha] at hread
        cases hread
        exact hmeans a ha

end SpriteStage.Json
