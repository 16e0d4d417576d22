import SpriteStage.Proofs.Decimal.Digits
import SpriteStage.Proofs.Json.Building
import SpriteStage.Proofs.Json.Quoting

/-!
# The tree of a written value

A value that is written without blanks is cut and built into the tree of that value wherever a value
may stand, whatever follows it, as long as that does not continue a number: `Exact.spells`. So the
compact text of a value is read back: `Exact.ofText_compactText`.
-/

namespace SpriteStage.Json

open Builder

def Scan.sound {α : Type} (a : α) : Scan α := ⟨.ok a, .ok ()⟩

/-- A value must begin, inside `fs`. Behind the opening bracket of an array the array may also end. -/
def Expects (b : Builder) (fs : List Frame) : Prop :=
  ∀ k, k ≠ .closeArray → b.step k = beginValue fs k

theorem expects_value (fs : List Frame) : Expects (.value fs) fs := fun _ _ => rfl

theorem expects_firstItem (fs : List Frame) : Expects (.inArray [] fs) (.items [] :: fs) :=
  fun _ => step_firstItem

/-- A text is read as the tree `t` wherever a value may stand. -/
def Spells (text : List Char) (t : Tree) : Prop :=
  ∀ b fs rest, Expects b fs → endsNumber rest = true →
    b.feed (text ++ rest) = (close t fs).feed rest

theorem isSpace_cases {c : Char} (h : isSpace c = true) :
    c = ' ' ∨ c = '\t' ∨ c = '\n' ∨ c = '\r' := by
  simpa [isSpace, or_assoc] using h

theorem feed_punctuation {c : Char} {k : Token} (h : punctuation? c = some k) (b : Builder)
    (cs : List Char) : b.feed (c :: cs) = (b.step k).feed cs := by
  have hs : isSpace c = false := by
    cases hs : isSpace c with
    | false => rfl
    | true => obtain rfl | rfl | rfl | rfl := isSpace_cases hs <;> cases h
  exact feed_token hs (by simp [tokenAt, h]) b

/-- A value that is a single token. -/
theorem Spells.of_token {c : Char} {cs : List Char} {k : Token} {t : Tree}
    (hs : isSpace c = false) (hat : tokenAt c cs = (k, some []))
    (hadmits : ∀ u, endsNumber u = true → k.admits u = true) (hk : k ≠ .closeArray)
    (hclose : ∀ fs, beginValue fs k = close t fs) : Spells (c :: cs) t := by
  intro b fs rest hb hrest
  rw [List.cons_append, feed_token hs (tokenAt_append hat (.inr (hadmits rest hrest))), hb k hk,
    hclose]
  rfl

theorem spells_null : Spells ['n', 'u', 'l', 'l'] .null :=
  .of_token rfl rfl (fun _ _ => rfl) nofun fun _ => rfl

theorem spells_true : Spells ['t', 'r', 'u', 'e'] (.bool true) :=
  .of_token rfl rfl (fun _ _ => rfl) nofun fun _ => rfl

theorem spells_false : Spells ['f', 'a', 'l', 's', 'e'] (.bool false) :=
  .of_token rfl rfl (fun _ _ => rfl) nofun fun _ => rfl

/-! ## Strings -/

/-- A text is cut as the string `k`, whatever follows. -/
def IsString (text : List Char) (k : Scan String) : Prop :=
  ∀ (b : Builder) rest, b.feed (text ++ rest) = (b.step (.str k)).feed rest

theorem IsString.spells {text : List Char} {k : Scan String} (h : IsString text k) :
    Spells text (.str k) := by
  intro b fs rest hb _
  rw [h b rest, hb (.str k) nofun]
  rfl

theorem StringBody.isString {w : List Char} (h : StringBody w) :
    IsString ('"' :: w ++ ['"']) ⟨readString [] (w ++ ['"']), .ok ()⟩ := by
  intro b rest
  rw [List.append_assoc, List.cons_append]
  exact feed_token rfl (h.tokenAt rest) b

theorem Quotes.isString {text : List Char} {k : String} (h : Quotes text k) :
    IsString text (.sound k) := by
  obtain ⟨w, hw, rfl⟩ := h
  have hread : readString [] (w ++ ['"']) = .ok k := by
    rw [hw.readString]
    simp
  have hstring := hw.stringBody.isString
  rwa [hread] at hstring

theorem isString_quoted (s : String) : IsString (quoted s) (.sound s) := (quotes_quoted s).isString

/-! ## Whole numbers -/

section Digits

variable {n : Nat}

theorem splitDigits_of_all {ds u : List Char} (h : ∀ d ∈ ds, d.isDigit = true)
    (hu : ∀ c ∈ u.head?, c.isDigit = false) : Decimal.splitDigits (ds ++ u) = (ds, u) := by
  induction ds with
  | nil =>
      cases u with
      | nil => rfl
      | cons c u => simp [Decimal.splitDigits, hu c rfl]
  | cons d ds ih =>
      have hds := ih fun d' hd => h d' (.tail d hd)
      simp only [Decimal.splitDigits, Prod.mk.injEq] at hds ⊢
      simpa [h d List.mem_cons_self] using hds

/-- Only zero begins with a zero. -/
theorem eq_zero_of_toDigits {ds : List Char} (h : Nat.toDigits 10 n = '0' :: ds) : n = 0 := by
  induction n using Nat.strongRecOn generalizing ds with
  | ind n ih =>
      by_cases hn : n < 10
      · rw [Nat.toDigits_of_lt_base hn] at h
        have hzero : Nat.digitChar n = '0' := (List.cons.inj h).1
        have hdigits : ∀ m < 10, Nat.digitChar m = '0' → m = 0 := by decide
        exact hdigits n hn hzero
      · rw [Nat.toDigits_of_base_le (by decide) (by omega)] at h
        obtain ⟨d, ds', hd⟩ := List.exists_cons_of_ne_nil (Nat.toDigits_ne_nil (b := 10) (n := n / 10))
        rw [hd] at h
        have hzero := ih (n / 10) (by omega) (hd.trans (by rw [(List.cons.inj h).1]))
        omega

theorem wholePart_toDigits (n : Nat) :
    wholePart (Nat.toDigits 10 n) = .ok (Nat.toDigits 10 n, []) := by
  have hdigit : ∀ c ∈ Nat.toDigits 10 n, c.isDigit = true := fun c hc =>
    Nat.isDigit_of_mem_toDigits (by decide) (by decide) hc
  have hsplit := splitDigits_of_all (u := []) hdigit nofun
  rw [List.append_nil] at hsplit
  refine wholePart_eq_ok.mpr ⟨digits1_eq_ok.mpr ⟨hsplit, Nat.toDigits_ne_nil⟩, ?_⟩
  intro d ds hzero
  rw [eq_zero_of_toDigits hzero] at hzero
  cases hzero

theorem numeral_toDigits (negative : Bool) (n : Nat) :
    numeral negative (Nat.toDigits 10 n) = .ok (⟨negative, Nat.toDigits 10 n, none, none⟩, []) :=
  numeral_eq_ok.mpr ⟨_, _, _, _, _, wholePart_toDigits n, rfl, rfl, rfl⟩

/-- The digits of a number that fits stand for that number, and none is left over. -/
theorem fitDigits_toDigits (h : n < Nat.pow 2 64) :
    Decimal.fitDigits 0 (Nat.toDigits 10 n) = (n, []) := by
  have hvalue : 0 * 10 ^ (Nat.toDigits 10 n).length + Decimal.digitsValue (Nat.toDigits 10 n) = n := by
    rw [Nat.zero_mul, Nat.zero_add, Decimal.digitsValue_toDigits]
  rw [Decimal.fitDigits_of_lt (hvalue.trans_lt h), hvalue]

end Digits

def Is64Bit (n : Int) : Prop := -(Nat.pow 2 63 : Nat) ≤ n ∧ n < (Nat.pow 2 64 : Nat)

instance (n : Int) : Decidable (Is64Bit n) := inferInstanceAs (Decidable (_ ∧ _))

theorem punctuation?_of_isDigit {c : Char} (h : c.isDigit = true) : punctuation? c = none := by
  unfold punctuation?
  split <;> first | rfl | cases h

theorem isSpace_of_isDigit {c : Char} (h : c.isDigit = true) : isSpace c = false := by
  cases hs : isSpace c with
  | false => rfl
  | true => obtain rfl | rfl | rfl | rfl := isSpace_cases hs <;> cases h

theorem tokenAt_of_isDigit {c : Char} (h : c.isDigit = true) (cs : List Char) :
    tokenAt c cs = numberToken false (c :: cs) := by
  have hne (d : Char) (hd : d.isDigit = false) : c ≠ d := by
    rintro rfl
    rw [h] at hd
    cases hd
  simp only [tokenAt, punctuation?_of_isDigit h, if_neg (hne '"' rfl), if_neg (hne 't' rfl),
    if_neg (hne 'f' rfl), if_neg (hne 'n' rfl), if_neg (hne '-' rfl), if_pos h]

theorem numberToken_of_numeral {negative : Bool} {cs : List Char} {n : Numeral}
    (h : numeral negative cs = .ok (n, [])) :
    numberToken negative cs = (.num ⟨n.number, .ok ()⟩, some []) := by
  simp only [numberToken, h]

theorem numberToken_toDigits {negative : Bool} {k : Nat} {n : Number}
    (h : (Numeral.mk negative (Nat.toDigits 10 k) none none).number = .ok n) :
    numberToken negative (Nat.toDigits 10 k) = (.num (.sound n), some []) := by
  rw [numberToken_of_numeral (numeral_toDigits negative k), h]
  rfl

theorem spells_nat {k : Nat} (h : k < Nat.pow 2 64) :
    Spells (Nat.toDigits 10 k) (.num (.sound (.int k))) := by
  obtain ⟨c, cs, hc⟩ := List.exists_cons_of_ne_nil (Nat.toDigits_ne_nil (b := 10) (n := k))
  have hdigit : c.isDigit = true :=
    Nat.isDigit_of_mem_toDigits (by decide) (by decide) (hc ▸ List.mem_cons_self)
  have hnumber : (Numeral.mk false (Nat.toDigits 10 k) none none).number = .ok (.int k) := by
    simp [Numeral.number, fitDigits_toDigits h]
  have hat := numberToken_toDigits hnumber
  rw [hc, ← tokenAt_of_isDigit hdigit] at hat
  rw [hc]
  exact .of_token (isSpace_of_isDigit hdigit) hat (fun _ hu => hu) nofun fun _ => rfl

theorem spells_neg {k : Nat} (hpos : k ≠ 0) (h : k ≤ Nat.pow 2 63) :
    Spells ('-' :: Nat.toDigits 10 k) (.num (.sound (.int (-k)))) := by
  have hnumber : (Numeral.mk true (Nat.toDigits 10 k) none none).number = .ok (.int (-k)) := by
    have hk : k < Nat.pow 2 64 := Nat.lt_of_le_of_lt h (by decide)
    simp [Numeral.number, fitDigits_toDigits hk, hpos, h]
  exact .of_token rfl (numberToken_toDigits hnumber) (fun _ hu => hu) nofun fun _ => rfl

theorem spells_int {n : Int} (h : Is64Bit n) :
    Spells (Number.int n).text.toList (.num (.sound (.int n))) := by
  obtain ⟨hlow, hhigh⟩ := h
  cases n with
  | ofNat k =>
      have hk : k < Nat.pow 2 64 := Int.ofNat_lt.mp hhigh
      have htext : (Number.int (.ofNat k)).text.toList = Nat.toDigits 10 k :=
        String.toList_ofList
      rw [htext]
      exact spells_nat hk
  | negSucc k =>
      have hk : k + 1 ≤ Nat.pow 2 63 := Int.ofNat_le.mp (Int.neg_le_neg_iff.mp hlow)
      have htext : (Number.int (.negSucc k)).text.toList = '-' :: Nat.toDigits 10 (k + 1) := by
        change ("-" ++ String.ofList (Nat.toDigits 10 (k + 1))).toList = _
        simp
      rw [htext]
      exact spells_neg (Nat.succ_ne_zero k) hk

/-! ## Containers -/

section Containers

variable {α : Type} {name text : α → List Char} {key : α → Scan String} {tree : α → Tree}

/-- The items of an array and its closing bracket. -/
theorem feed_items {x : α} {xs : List α} (h : ∀ y ∈ x :: xs, Spells (text y) (tree y))
    {b : Builder} {items : List Tree} {fs : List Frame} (hb : Expects b (.items items :: fs))
    (rest : List Char) :
    b.feed (commaSeparated ((x :: xs).map text) ++ ']' :: rest) =
      (close (.arr (items.reverse ++ (x :: xs).map tree) .closed) fs).feed rest := by
  induction xs generalizing x b items with
  | nil =>
      change b.feed (text x ++ ']' :: rest) = _
      rw [h x List.mem_cons_self b _ (']' :: rest) hb rfl, close,
        feed_punctuation (k := .closeArray) rfl]
      simp [step]
  | cons y ys ih =>
      have hys := ih (fun z hz => h z (.tail x hz)) (expects_value (.items (tree x :: items) :: fs))
      change b.feed ((text x ++ ',' :: commaSeparated ((y :: ys).map text)) ++ ']' :: rest) = _
      rw [List.append_assoc, h x List.mem_cons_self b _ _ hb rfl, List.cons_append, close,
        feed_punctuation (k := .comma) rfl]
      simpa [step] using hys

theorem spells_array {xs : List α} (h : ∀ x ∈ xs, Spells (text x) (tree x)) :
    Spells ('[' :: commaSeparated (xs.map text) ++ [']']) (.arr (xs.map tree) .closed) := by
  intro b fs rest hb _
  rw [List.cons_append, List.cons_append, List.append_assoc, feed_punctuation (k := .openArray) rfl,
    hb .openArray nofun]
  cases xs with
  | nil => exact feed_punctuation (k := .closeArray) rfl _ rest
  | cons x xs => exact feed_items h (expects_firstItem fs) rest

/-- One member of an object. -/
theorem feed_member {name cs : List Char} {k : Scan String} {t : Tree} (hname : IsString name k)
    (h : Spells cs t) {b : Builder} {entries : List (Tree × Tree)} {fs : List Frame}
    (hb : ∀ s, b.step (.str s) = .colon (.str s) entries fs) {rest : List Char}
    (hrest : endsNumber rest = true) :
    b.feed ((name ++ ':' :: cs) ++ rest) =
      (Builder.inObject ((.str k, t) :: entries) fs).feed rest := by
  rw [List.append_assoc, hname, hb, List.cons_append, feed_punctuation (k := .colon) rfl]
  exact h _ _ rest (expects_value (.member (.str k) entries :: fs)) hrest

/-- The members of an object and its closing bracket. -/
theorem feed_members {x : α} {xs : List α} (hname : ∀ y ∈ x :: xs, IsString (name y) (key y))
    (h : ∀ y ∈ x :: xs, Spells (text y) (tree y)) {b : Builder}
    {entries : List (Tree × Tree)} {fs : List Frame}
    (hb : ∀ s, b.step (.str s) = .colon (.str s) entries fs) (rest : List Char) :
    b.feed (commaSeparated ((x :: xs).map fun y => name y ++ ':' :: text y) ++ '}' :: rest) =
      (close (.obj (entries.reverse ++ (x :: xs).map fun y => (.str (key y), tree y)) .closed)
        fs).feed rest := by
  induction xs generalizing x b entries with
  | nil =>
      change b.feed ((name x ++ ':' :: text x) ++ '}' :: rest) = _
      rw [feed_member (hname x List.mem_cons_self) (h x List.mem_cons_self) hb rfl,
        feed_punctuation (k := .closeObject) rfl]
      simp [step]
  | cons y ys ih =>
      have hys := ih (fun z hz => hname z (.tail x hz)) (fun z hz => h z (.tail x hz))
        (b := .key ((.str (key x), tree x) :: entries) fs) fun _ => rfl
      change b.feed (((name x ++ ':' :: text x) ++ ',' :: commaSeparated
        ((y :: ys).map fun y => name y ++ ':' :: text y)) ++ '}' :: rest) = _
      rw [List.append_assoc (name x ++ ':' :: text x),
        feed_member (hname x List.mem_cons_self) (h x List.mem_cons_self) hb rfl,
        List.cons_append, feed_punctuation (k := .comma) rfl]
      simpa [step] using hys

theorem spells_object {xs : List α} (hname : ∀ x ∈ xs, IsString (name x) (key x))
    (h : ∀ x ∈ xs, Spells (text x) (tree x)) :
    Spells ('{' :: commaSeparated (xs.map fun x => name x ++ ':' :: text x) ++ ['}'])
      (.obj (xs.map fun x => (.str (key x), tree x)) .closed) := by
  intro b fs rest hb _
  rw [List.cons_append, List.cons_append, List.append_assoc,
    feed_punctuation (k := .openObject) rfl, hb .openObject nofun]
  cases xs with
  | nil => exact feed_punctuation (k := .closeObject) rfl _ rest
  | cons x xs => exact feed_members (b := .inObject [] fs) hname h (fun _ => rfl) rest

end Containers

/-! ## Values -/

mutual

def Value.tree : Value → Tree
  | .null => .null
  | .bool b => .bool b
  | .num n => .num (.sound n)
  | .str s => .str (.sound s)
  | .arr items => .arr (treesOfItems items) .closed
  | .obj members => .obj (treesOfMembers members) .closed

def Value.treesOfItems : List Value → List Tree
  | [] => []
  | v :: vs => v.tree :: treesOfItems vs

def Value.treesOfMembers : List (String × Value) → List (Tree × Tree)
  | [] => []
  | (k, v) :: rest => (.str (.sound k), v.tree) :: treesOfMembers rest

end

namespace Value

theorem treesOfItems_eq_map (vs : List Value) : treesOfItems vs = vs.map tree := by
  induction vs with
  | nil => rfl
  | cons v vs ih => rw [treesOfItems, ih, List.map_cons]

theorem treesOfMembers_eq_map (ms : List (String × Value)) :
    treesOfMembers ms = ms.map fun m => (.str (.sound m.1), m.2.tree) := by
  induction ms with
  | nil => rfl
  | cons m ms ih => rw [treesOfMembers, ih, List.map_cons]

theorem compactItems_eq_map (vs : List Value) : compactItems vs = vs.map compact := by
  induction vs with
  | nil => rfl
  | cons v vs ih => rw [compactItems, ih, List.map_cons]

theorem compactMembers_eq_map (ms : List (String × Value)) :
    compactMembers ms = ms.map fun m => quoted m.1 ++ ':' :: m.2.compact := by
  induction ms with
  | nil => rfl
  | cons m ms ih => rw [compactMembers, ih, List.map_cons]

theorem spells_arr {vs : List Value} (h : ∀ v ∈ vs, Spells v.compact v.tree) :
    Spells (Value.arr vs).compact (Value.arr vs).tree := by
  rw [compact, tree, compactItems_eq_map, treesOfItems_eq_map]
  exact spells_array h

theorem spells_obj {ms : List (String × Value)} (h : ∀ m ∈ ms, Spells m.2.compact m.2.tree) :
    Spells (Value.obj ms).compact (Value.obj ms).tree := by
  rw [compact, tree, compactMembers_eq_map, treesOfMembers_eq_map]
  exact spells_object (fun m _ => isString_quoted m.1) h

/-- A value that its text gives back: every number is whole and fits sixty-four bits, and the
members of every object stand in the order of their keys, each key once. -/
inductive Exact : Value → Prop
  | null : Exact .null
  | bool (b : Bool) : Exact (.bool b)
  | int {n : Int} (h : Is64Bit n) : Exact (.num (.int n))
  | str (s : String) : Exact (.str s)
  | arr {items : List Value} (h : ∀ v ∈ items, Exact v) : Exact (.arr items)
  | obj {members : List (String × Value)} (order : (members.map Prod.fst).Pairwise (· < ·))
      (h : ∀ m ∈ members, Exact m.2) : Exact (.obj members)

theorem Exact.spells {v : Value} (h : v.Exact) : Spells v.compact v.tree := by
  induction h with
  | null => exact spells_null
  | bool b =>
      cases b with
      | true => exact spells_true
      | false => exact spells_false
  | int h => exact spells_int h
  | str s => exact (isString_quoted s).spells
  | arr _ ih => exact spells_arr ih
  | obj _ _ ih => exact spells_obj ih

end Value

/-- The document of a text that is a whole value. -/
theorem Spells.ofText {text : List Char} {t : Tree} (h : Spells text t) :
    Document.ofText text = ⟨t, false⟩ := by
  have hfed := h start [] [] (expects_value []) rfl
  rw [List.append_nil, feed_nil] at hfed
  change (⟨(start.feed text).tree, (start.feed text).more⟩ : Document) = _
  rw [hfed]
  rfl

/-- An exact value is read back from its compact text. -/
theorem Value.Exact.ofText_compactText {v : Value} (h : v.Exact) :
    Document.ofText v.compactText.toList = ⟨v.tree, false⟩ := by
  rw [compactText, String.toList_ofList]
  exact h.spells.ofText

end SpriteStage.Json
