import SpriteStage.Proofs.Decimal.Scaling
import SpriteStage.Proofs.Json.Grammar

/-!
# What a number is read as

A number is written as a row of digits and a power of ten. Of the digits only so many are read as fit
sixty-four bits, which is near enough (`abs_fitDigits_twice_sub_le`), and then they are scaled. So the
double that is read is near what is written, and it is the nearest one when the digits are few and the
power is small: `Numeral.denotes_number`.
-/

namespace SpriteStage.Decimal

variable {k k' n : Nat} {negative : Bool} {power : Int} {whole fraction excess left : List Char}

/-! ## Digits that are left over -/

/-- Two numbers with the same long row of digits in front are near each other. -/
theorem abs_leading_sub_le {u a b : Nat} (hk : Nat.pow 2 64 < 10 * (k + 1)) (ha : a < u) (hb : b < u) :
    |((k * u + a : Nat) : ℚ) - (k * u + b : Nat)| ≤ (k * u + b : Nat) / 2 ^ 60 := by
  have hlarge : 2 ^ 60 ≤ k := by
    have hpow : Nat.pow 2 64 = 18446744073709551616 := rfl
    omega
  have hpart : (2 ^ 60 : ℚ) * u ≤ k * u :=
    mul_le_mul_of_nonneg_right (by exact_mod_cast hlarge) (Nat.cast_nonneg u)
  have ha : (a : ℚ) ≤ u := Nat.cast_le.mpr ha.le
  have hb : (b : ℚ) ≤ u := Nat.cast_le.mpr hb.le
  have ha' : (0 : ℚ) ≤ a := Nat.cast_nonneg a
  have hb' : (0 : ℚ) ≤ b := Nat.cast_nonneg b
  rw [le_div_iff₀ (by norm_num)]
  push_cast
  rw [add_sub_add_left_eq_sub]
  have hdistance : |(a : ℚ) - b| ≤ u := abs_le.mpr ⟨by linarith, by linarith⟩
  linarith

/-- The digits that are left over, before and behind the point, do not make much of a difference. -/
theorem abs_fitDigits_twice_sub_le (hwhole : ∀ c ∈ whole, c.isDigit = true)
    (hfraction : ∀ c ∈ fraction, c.isDigit = true) (h : fitDigits 0 whole = (k, excess))
    (h' : fitDigits k fraction = (k', left)) :
    |((k' * 10 ^ (excess.length + left.length) : Nat) : ℚ) - digitsValue (whole ++ fraction)| ≤
      digitsValue (whole ++ fraction) / 2 ^ 60 := by
  obtain ⟨taken, rfl, hk⟩ := fitDigits_eq h
  obtain ⟨taken', rfl, hk'⟩ := fitDigits_eq h'
  rw [Nat.zero_mul, Nat.zero_add] at hk
  by_cases hexcess : excess = []
  · subst hexcess
    have hvalue : digitsValue (taken ++ [] ++ (taken' ++ left)) =
        k' * 10 ^ left.length + digitsValue left := by
      rw [List.append_nil, ← List.append_assoc, digitsValue_append, digitsValue_append, ← hk, ← hk']
    rw [hvalue, List.length_nil, Nat.zero_add]
    by_cases hleft : left = []
    · subst hleft
      rw [show digitsValue [] = 0 from rfl, Nat.add_zero, sub_self, abs_zero]
      positivity
    · have hdigits : ∀ c ∈ left, c.isDigit = true := fun c hc =>
        hfraction c (List.mem_append_right _ hc)
      exact abs_leading_sub_le (a := 0) (le_of_fitDigits hfraction h' hleft)
        (Nat.pow_pos (by decide)) (digitsValue_lt hdigits)
  · -- digits behind the point may be taken although some before it are not
    have hlarge := le_of_fitDigits hwhole h hexcess
    have hpow : 10 ^ (excess ++ (taken' ++ left)).length =
        10 ^ taken'.length * 10 ^ (excess.length + left.length) := by
      rw [← Nat.pow_add]
      congr 1
      simp only [List.length_append]
      omega
    have hvalue : digitsValue (taken ++ excess ++ (taken' ++ left)) =
        k * 10 ^ (excess ++ (taken' ++ left)).length + digitsValue (excess ++ (taken' ++ left)) := by
      rw [List.append_assoc, digitsValue_append, ← hk]
    have hread : k' * 10 ^ (excess.length + left.length) =
        k * 10 ^ (excess ++ (taken' ++ left)).length +
          digitsValue taken' * 10 ^ (excess.length + left.length) := by
      rw [hk', hpow]
      ring
    rw [hvalue, hread]
    refine abs_leading_sub_le hlarge ?_ (digitsValue_lt fun c hc => ?_)
    · rw [hpow]
      refine Nat.mul_lt_mul_of_pos_right (digitsValue_lt fun c hc => ?_) (Nat.pow_pos (by decide))
      exact hfraction c (List.mem_append_left _ hc)
    · rcases List.mem_append.mp hc with hc | hc
      · exact hwhole c (List.mem_append_right _ hc)
      · exact hfraction c hc

/-- Nothing is left over of a number that fits. -/
theorem fitDigits_twice_of_lt (hlt : digitsValue (whole ++ fraction) < Nat.pow 2 64)
    (h : fitDigits 0 whole = (k, excess)) (h' : fitDigits k fraction = (k', left)) :
    excess = [] ∧ left = [] ∧ k' = digitsValue (whole ++ fraction) := by
  rw [digitsValue_append] at hlt ⊢
  have hwhole : 0 * 10 ^ whole.length + digitsValue whole < Nat.pow 2 64 := by
    rw [Nat.zero_mul, Nat.zero_add]
    exact (Nat.le_mul_of_pos_right _ (Nat.pow_pos (by decide))).trans_lt
      ((Nat.le_add_right _ _).trans_lt hlt)
  rw [fitDigits_of_lt hwhole, Nat.zero_mul, Nat.zero_add] at h
  cases h
  rw [fitDigits_of_lt hlt] at h'
  cases h'
  exact ⟨rfl, rfl, rfl⟩

/-! ## What a double stands for -/

/-- A double is read for `n · 10 ^ power`, below zero if `negative`. It is near that: off by one part in
`2 ^ 48` or by the least double at most. Of fewer than fifty-four bits and a power of ten that is a
double the nearest double is read. -/
def Denotes (negative : Bool) (n : Nat) (power : Int) (x : Float) : Prop :=
  ∃ b, Binary.ofFloat? x = some b ∧ b.negative = negative ∧
    |b.magnitude - n * 10 ^ power| ≤ n * 10 ^ power / 2 ^ 48 + Binary.least ∧
    (n < Nat.pow 2 53 → power.natAbs ≤ 22 → b.IsNearest (n * 10 ^ power))

theorem Binary.IsNearest.congr {b c : Binary} {v : ℚ} (h : b.IsNearest v)
    (hmagnitude : c.magnitude = b.magnitude)
    (heven : b.significand % 2 = 0 → c.significand % 2 = 0) : c.IsNearest v := by
  constructor
  · rw [hmagnitude]
    exact h.le
  · rw [hmagnitude]
    exact fun hd heq => (h.even hd heq).imp_right heven

theorem denotes_toFloat {b : Binary} (hfits : b.Fits) (hfinite : b.isFinite = true)
    (hnear : |b.magnitude - n * 10 ^ power| ≤ n * 10 ^ power / 2 ^ 48 + Binary.least)
    (hexact : n < Nat.pow 2 53 → power.natAbs ≤ 22 → b.IsNearest (n * 10 ^ power)) :
    Denotes b.negative n power b.toFloat := by
  obtain ⟨c, hc, hnegative, hmagnitude, heven⟩ := Binary.ofFloat?_toFloat hfits hfinite
  refine ⟨c, hc, hnegative, hmagnitude ▸ hnear, fun hn hpower => ?_⟩
  exact (hexact hn hpower).congr hmagnitude heven

/-- A whole number is read as the nearest double. -/
theorem denotes_nearestDouble (negative : Bool) (hn : n < Nat.pow 2 64) :
    Denotes negative n 0 (nearestDouble negative n 1) := by
  have hfits := Binary.fits_nearest negative n Nat.one_pos
  have hquotient : (n : ℚ) / (1 : Nat) = n * 10 ^ (0 : Int) := by
    rw [Nat.cast_one, div_one, zpow_zero, mul_one]
  have hnear := Binary.abs_magnitude_nearest_sub_le negative Nat.one_pos hquotient
  refine denotes_toFloat hfits (Binary.isFinite_of_lt hfits (Binary.lt_two_zpow_of_le hn ?_)) ?_
    fun _ _ => Binary.isNearest_nearest negative Nat.one_pos hquotient
  · have hle := (abs_le.mp hnear).2
    have hpart : (n : ℚ) / 2 ^ 53 ≤ n := div_le_self (Nat.cast_nonneg n) (by norm_num)
    rw [zpow_zero, mul_one] at hle
    linarith [Binary.least_le_one, Binary.least_pos]
  · refine hnear.trans (add_le_add ?_ (half_le_self Binary.least_pos.le))
    exact div_le_div_of_nonneg_left (by positivity) (by positivity) (by norm_num)

/-- What the digits and the scaling are off by adds up. -/
theorem near_of_cut {v w x t δ : ℚ} (ht : 0 < t) (hv : 0 ≤ v) (hδ : 0 < δ)
    (hcut : |w - v| ≤ v / 2 ^ 60) (hnear : |x - w * t| ≤ Binary.slack * (w * t) + δ / 2) :
    |x - v * t| ≤ v * t / 2 ^ 48 + δ := by
  have hcut : |w * t - v * t| ≤ v * t / 2 ^ 60 := by
    rw [← sub_mul, abs_mul, abs_of_pos ht, ← div_mul_eq_mul_div]
    exact mul_le_mul_of_nonneg_right hcut ht.le
  have hscaled : w * t ≤ v * t + v * t / 2 ^ 60 := by linarith [(abs_le.mp hcut).2]
  have hvt : 0 ≤ v * t := mul_nonneg hv ht.le
  have htriangle := abs_sub_le x (w * t) (v * t)
  unfold Binary.slack at hnear
  linarith

/-- Digits that fit are scaled. -/
theorem denotes_scaled (hwhole : ∀ c ∈ whole, c.isDigit = true)
    (hfraction : ∀ c ∈ fraction, c.isDigit = true) (h : fitDigits 0 whole = (k, excess))
    (h' : fitDigits k fraction = (k', left)) {y : Binary}
    (hy : Binary.scaled? negative k' ((excess.length + left.length : Nat) + power) = some y) :
    Denotes negative (digitsValue (whole ++ fraction)) power y.toFloat := by
  have hk := lt_of_fitDigits (Nat.two_pow_pos 64) h
  obtain ⟨rfl, hfinite, hclose⟩ := Binary.scaled?_close (lt_of_fitDigits hk h') hy
  have hten : (0 : ℚ) < 10 ^ power := zpow_pos (by norm_num) power
  refine denotes_toFloat hclose.fits hfinite ?_ fun hlt hpower => ?_
  · have hcut := abs_fitDigits_twice_sub_le hwhole hfraction h h'
    have hnear := hclose.abs_sub_le
    have hread : (k' : ℚ) * 10 ^ ((excess.length + left.length : Nat) + power) =
        (k' * 10 ^ (excess.length + left.length) : Nat) * 10 ^ power := by
      rw [zpow_add₀ (by norm_num), zpow_natCast]
      push_cast
      ring
    rw [hread] at hnear
    exact near_of_cut hten (Nat.cast_nonneg _) Binary.least_pos hcut hnear
  · obtain ⟨rfl, rfl, rfl⟩ := fitDigits_twice_of_lt (hlt.trans (by decide)) h h'
    rw [List.length_nil, Nat.add_zero, Nat.cast_zero, zero_add] at hy
    exact Binary.scaled?_exact hlt hpower hy

end SpriteStage.Decimal

namespace SpriteStage.Json

variable {n : Numeral} {m : Number} {ds f fs e : List Char}

/-- A number is a whole number that fits, or digits that fit are scaled. -/
theorem Numeral.number_cases (h : n.number = .ok m) :
    (∃ k, Decimal.fitDigits 0 n.whole = (k, []) ∧ n.fraction = none ∧ n.exponent = none ∧
      (n.negative = false ∧ m = .int k ∨ n.negative = true ∧ k ≠ 0 ∧ m = .int (-k))) ∨
    ∃ k excess k' left y, Decimal.fitDigits 0 n.whole = (k, excess) ∧
      Decimal.fitDigits k (n.fraction.getD []) = (k', left) ∧
      Decimal.Binary.scaled? n.negative k' (excess.length + left.length -
        (n.fraction.getD []).length + n.exponent.getD 0) = some y ∧ m = .float y.toFloat := by
  rcases hk : Decimal.fitDigits 0 n.whole with ⟨k, excess⟩
  rcases hk' : Decimal.fitDigits k (n.fraction.getD []) with ⟨k', left⟩
  simp only [number, hk, hk'] at h
  split at h
  · next hwhole =>
    simp only [Bool.and_eq_true, Bool.not_eq_true', Option.isNone_iff_eq_none,
      List.isEmpty_iff] at hwhole
    obtain ⟨⟨⟨hf, he⟩, rfl⟩, hnegative⟩ := hwhole
    cases h
    exact .inl ⟨k, rfl, hf, he, .inl ⟨hnegative, rfl⟩⟩
  · next hpositive =>
    split at h
    · next hwhole =>
      simp only [Bool.and_eq_true, Option.isNone_iff_eq_none, List.isEmpty_iff,
        decide_eq_true_eq] at hwhole
      obtain ⟨⟨⟨⟨hf, he⟩, rfl⟩, hne⟩, -⟩ := hwhole
      have hnegative : n.negative = true := by simpa [hf, he] using hpositive
      cases h
      exact .inl ⟨k, rfl, hf, he, .inr ⟨hnegative, hne, rfl⟩⟩
    · split at h
      · next y hy =>
        cases h
        exact .inr ⟨k, excess, k', left, y, rfl, hk', hy, rfl⟩
      · cases h

/-- The double of a number stands for what is written. -/
theorem Numeral.denotes_number (hwhole : ∀ c ∈ n.whole, c.isDigit = true)
    (hfraction : ∀ c ∈ n.fraction.getD [], c.isDigit = true) (h : n.number = .ok m) :
    Decimal.Denotes n.negative (Decimal.digitsValue (n.whole ++ n.fraction.getD []))
      (n.exponent.getD 0 - (n.fraction.getD []).length) m.toFloat := by
  rcases number_cases h with ⟨k, hk, hf, he, hm⟩ | ⟨k, excess, k', left, y, hk, hk', hy, rfl⟩
  · have hlt := Decimal.lt_of_fitDigits (Nat.two_pow_pos 64) hk
    obtain ⟨taken, htaken, rfl⟩ := Decimal.fitDigits_eq hk
    rw [List.append_nil] at htaken
    rw [hf, he, htaken]
    rw [Nat.zero_mul, Nat.zero_add] at hm hlt
    simp only [Option.getD_none, List.append_nil, List.length_nil, Nat.cast_zero, sub_zero]
    rcases hm with ⟨hnegative, rfl⟩ | ⟨hnegative, hne, rfl⟩
    · rw [hnegative, Number.toFloat, Int.natAbs_natCast, decide_eq_false (by omega)]
      exact Decimal.denotes_nearestDouble false hlt
    · rw [hnegative, Number.toFloat, Int.natAbs_neg, Int.natAbs_natCast, decide_eq_true (by omega)]
      exact Decimal.denotes_nearestDouble true hlt
  · refine Decimal.denotes_scaled hwhole hfraction hk hk' ?_
    rw [← hy]
    congr 1
    push_cast
    ring

/-! ## What is written -/

inductive WritesFraction : List Char → List Char → Prop
  | none : WritesFraction [] []
  | some {ds : List Char} (h : IsDigits ds) : WritesFraction ('.' :: ds) ds

inductive WritesExponent : List Char → Int → Prop
  | none : WritesExponent [] 0
  | unsigned {e : Char} {ds : List Char} (he : e = 'e' ∨ e = 'E') (h : IsDigits ds) :
      WritesExponent (e :: ds) (Decimal.digitsValue ds)
  | plus {e : Char} {ds : List Char} (he : e = 'e' ∨ e = 'E') (h : IsDigits ds) :
      WritesExponent (e :: '+' :: ds) (Decimal.digitsValue ds)
  | minus {e : Char} {ds : List Char} (he : e = 'e' ∨ e = 'E') (h : IsDigits ds) :
      WritesExponent (e :: '-' :: ds) (-Decimal.digitsValue ds)

/-- A text is the number `n · 10 ^ power`, or this number below zero. -/
inductive WritesDecimal : (text : List Char) → (negative : Bool) → (n : Nat) → (power : Int) → Prop
  | unsigned {ds f fs e : List Char} {k : Int} (hw : IsWhole ds) (hf : WritesFraction f fs)
      (he : WritesExponent e k) :
      WritesDecimal (ds ++ (f ++ e)) false (Decimal.digitsValue (ds ++ fs)) (k - fs.length)
  | negative {ds f fs e : List Char} {k : Int} (hw : IsWhole ds) (hf : WritesFraction f fs)
      (he : WritesExponent e k) :
      WritesDecimal ('-' :: (ds ++ (f ++ e))) true (Decimal.digitsValue (ds ++ fs)) (k - fs.length)

theorem WritesFraction.isDigit {c : Char} (h : WritesFraction f fs) (hc : c ∈ fs) :
    c.isDigit = true := by
  cases h with
  | none => cases hc
  | some hds => exact hds.isDigit hc

theorem WritesFraction.eq_nil (h : WritesFraction f []) : f = [] := by
  cases h with
  | none => rfl
  | some hds => exact absurd rfl hds.2

theorem IsFraction.writes {x : Option (List Char)} {r : List Char} (h : IsFraction f)
    (he : IsExponent e) (hx : Json.fractionPart (f ++ e) = .ok (x, r)) :
    WritesFraction f (x.getD []) ∧ r = e := by
  obtain ⟨y, hy⟩ := h.fractionPart he
  rw [hy] at hx
  cases hx
  refine ⟨?_, rfl⟩
  cases h with
  | none =>
      cases he with
      | none => cases hy; exact .none
      | unsigned hc | signed hc =>
          rw [List.nil_append, fractionPart_of_ne (by rcases hc with rfl | rfl <;> decide)] at hy
          cases hy
          exact .none
  | some hds =>
      rw [List.cons_append, Json.fractionPart, hds.digits1 he.endsDigits] at hy
      cases hy
      exact .some hds

theorem IsExponent.writes {x : Option Int} (h : IsExponent e)
    (hx : Json.exponentPart e = .ok (x, [])) :
    WritesExponent e (x.getD 0) ∧ (x = Option.none → e = []) := by
  have hmark {c : Char} (hc : c = 'e' ∨ c = 'E') : marksExponent c = true := by
    rcases hc with rfl | rfl <;> rfl
  have hdigits {ds : List Char} (h : IsDigits ds) : digits1 ds = .ok (ds, []) := by
    simpa using h.digits1 (u := []) nofun
  cases h with
  | none => cases hx; exact ⟨.none, fun _ => rfl⟩
  | unsigned hc h =>
      rw [exponentPart_of_mark (hmark hc), splitSign_of_isDigits h, hdigits h] at hx
      cases hx
      exact ⟨Decimal.ofDigits_eq _ ▸ .unsigned hc h, nofun⟩
  | signed hc hsign h =>
      rw [exponentPart_of_mark (hmark hc)] at hx
      rcases hsign with rfl | rfl <;> rw [Decimal.splitSign, hdigits h] at hx <;> cases hx
      · exact ⟨Decimal.ofDigits_eq _ ▸ .plus hc h, nofun⟩
      · exact ⟨Decimal.ofDigits_eq _ ▸ .minus hc h, nofun⟩

/-- The parts of a number are those that are written. -/
theorem writes_of_numeral {negative : Bool} (hw : IsWhole ds) (hf : IsFraction f)
    (he : IsExponent e) (hn : numeral negative (ds ++ (f ++ e)) = .ok (n, [])) :
    n.negative = negative ∧ n.whole = ds ∧ WritesFraction f (n.fraction.getD []) ∧
      WritesExponent e (n.exponent.getD 0) ∧ (n.exponent = none → e = []) := by
  obtain ⟨whole, r₁, fraction, r₂, exponent, hwhole, hfraction, hexponent, rfl⟩ :=
    numeral_eq_ok.mp hn
  rw [hw.wholePart (hf.endsDigits he)] at hwhole
  cases hwhole
  obtain ⟨hwrites, rfl⟩ := hf.writes he hfraction
  exact ⟨rfl, rfl, hwrites, he.writes hexponent⟩

/-- A text stands for a double: it is a number that this double is read for. -/
def WritesFloat (text : List Char) (x : Float) : Prop :=
  ∃ negative n power, WritesDecimal text negative n power ∧ Decimal.Denotes negative n power x

end SpriteStage.Json
