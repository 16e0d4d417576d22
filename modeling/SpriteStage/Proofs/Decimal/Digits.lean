import Mathlib.Data.List.Induction
import Mathlib.Data.Nat.Digits.Lemmas
import SpriteStage.Decimal.Numeral
import SpriteStage.Decimal.Scaling

/-!
# Rows of digits

What a row of decimal digits stands for, and what is taken of it when only the digits that fit
sixty-four bits are: all of a number that fits (`fitDigits_of_lt`), and of a greater one as many as make
a number with nearly as many bits (`le_of_fitDigits`).
-/

namespace SpriteStage.Decimal

variable {n k limit : Nat} {ds rest : List Char}

def digitsValue (ds : List Char) : Nat :=
  Nat.ofDigits 10 (ds.reverse.map fun c => c.toNat - '0'.toNat)

theorem digitsValue_append (ds es : List Char) :
    digitsValue (ds ++ es) = digitsValue ds * 10 ^ es.length + digitsValue es := by
  unfold digitsValue
  rw [List.reverse_append, List.map_append, Nat.ofDigits_append, List.length_map,
    List.length_reverse, Nat.add_comm, Nat.mul_comm]

theorem digitsValue_singleton (c : Char) : digitsValue [c] = c.toNat - '0'.toNat :=
  Nat.ofDigits_singleton

theorem digitsValue_cons (c : Char) (ds : List Char) :
    digitsValue (c :: ds) = (c.toNat - '0'.toNat) * 10 ^ ds.length + digitsValue ds := by
  rw [← List.singleton_append, digitsValue_append, digitsValue_singleton]

theorem ofDigits_eq (ds : List Char) : ofDigits ds = digitsValue ds := by
  induction ds using List.reverseRecOn with
  | nil => rfl
  | append_singleton ds c ih =>
      unfold ofDigits at ih ⊢
      rw [List.foldl_append, ih, digitsValue_append, digitsValue_singleton, List.length_singleton,
        pow_one, Nat.mul_comm]
      rfl

theorem digit_le_of_isDigit {c : Char} (h : c.isDigit = true) : c.toNat - '0'.toNat < 10 := by
  have hrange : 48 ≤ c.toNat ∧ c.toNat ≤ 57 := Char.isDigit_iff_toNat.mp h
  change c.toNat - 48 < 10
  omega

theorem digitsValue_lt (h : ∀ c ∈ ds, c.isDigit = true) : digitsValue ds < 10 ^ ds.length := by
  have hlt := Nat.ofDigits_lt_base_pow_length (b := 10)
    (l := ds.reverse.map fun c => c.toNat - '0'.toNat) (by decide) (fun x hx => by
      obtain ⟨c, hc, rfl⟩ := List.mem_map.mp hx
      exact digit_le_of_isDigit (h c (List.mem_reverse.mp hc)))
  rwa [List.length_map, List.length_reverse] at hlt

/-- The digits that are taken are the first ones. -/
theorem fitDigits_eq (h : fitDigits n ds = (k, rest)) :
    ∃ taken, ds = taken ++ rest ∧ k = n * 10 ^ taken.length + digitsValue taken := by
  induction ds generalizing n with
  | nil =>
      cases h
      exact ⟨[], rfl, (Nat.mul_one _).symm⟩
  | cons c ds ih =>
      rw [fitDigits] at h
      split at h
      · obtain ⟨taken, rfl, hk⟩ := ih h
        refine ⟨c :: taken, rfl, ?_⟩
        rw [hk, digitsValue_cons, List.length_cons, Nat.pow_succ]
        ring
      · cases h
        exact ⟨[], rfl, (Nat.mul_one _).symm⟩

theorem lt_of_fitDigits (hn : n < Nat.pow 2 64) (h : fitDigits n ds = (k, rest)) :
    k < Nat.pow 2 64 := by
  induction ds generalizing n with
  | nil =>
      cases h
      exact hn
  | cons c ds ih =>
      rw [fitDigits] at h
      split at h
      · next hlt => exact ih hlt h
      · cases h
        exact hn

/-- Digits are left over only when the value is too great for one more. -/
theorem le_of_fitDigits (hds : ∀ c ∈ ds, c.isDigit = true) (h : fitDigits n ds = (k, rest))
    (hrest : rest ≠ []) : Nat.pow 2 64 < 10 * (k + 1) := by
  induction ds generalizing n with
  | nil =>
      cases h
      exact absurd rfl hrest
  | cons c ds ih =>
      rw [fitDigits] at h
      split at h
      · exact ih (fun d hd => hds d (.tail c hd)) h
      · next hge =>
        cases h
        have hdigit := digit_le_of_isDigit (hds c List.mem_cons_self)
        omega

/-- Nothing is left over of a number that fits. -/
theorem fitDigits_of_lt (h : n * 10 ^ ds.length + digitsValue ds < Nat.pow 2 64) :
    fitDigits n ds = (n * 10 ^ ds.length + digitsValue ds, []) := by
  induction ds generalizing n with
  | nil => exact congrArg (·, []) (Nat.mul_one n).symm
  | cons c ds ih =>
      have hvalue : n * 10 ^ (c :: ds).length + digitsValue (c :: ds) =
          (10 * n + (c.toNat - '0'.toNat)) * 10 ^ ds.length + digitsValue ds := by
        rw [digitsValue_cons, List.length_cons, Nat.pow_succ]
        ring
      rw [hvalue] at h ⊢
      have hlt : 10 * n + (c.toNat - '0'.toNat) < Nat.pow 2 64 :=
        ((Nat.le_mul_of_pos_right _ (Nat.pow_pos (by decide))).trans (Nat.le_add_right _ _)).trans_lt h
      rw [fitDigits, if_pos hlt, ih h]

theorem digitsValue_toDigits (n : Nat) : digitsValue (Nat.toDigits 10 n) = n := by
  induction n using Nat.strongRecOn with
  | ind n ih =>
      have hdigit : ∀ m < 10, (Nat.digitChar m).toNat - '0'.toNat = m := by decide
      by_cases hn : n < 10
      · rw [Nat.toDigits_of_lt_base hn, digitsValue_singleton, hdigit n hn]
      · rw [Nat.toDigits_of_base_le (by decide) (by omega), digitsValue_append,
          ih (n / 10) (by omega), digitsValue_singleton, List.length_singleton,
          hdigit (n % 10) (by omega)]
        omega

end SpriteStage.Decimal
