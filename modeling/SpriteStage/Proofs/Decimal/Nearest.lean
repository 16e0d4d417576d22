import Mathlib
import SpriteStage.Decimal.Binary

/-!
# How near the nearest double is

A quotient is rounded to a multiple of a power of two, the unit. The unit is fifty-two places below
the leading bit of the quotient, or that of the subnormal numbers, so rounding changes a quotient by
one part in `2 ^ 53` at most, or by half the least double: `abs_magnitude_nearest_sub_le`. No double is
nearer (`isNearest_nearest`), and the bits of the double are those of the value (`ofFloat?_toFloat`).
-/

namespace SpriteStage.Decimal

variable {n d : Nat}

/-! ## The unit -/

theorem two_zpow_pos (e : Int) : (0 : ℚ) < 2 ^ e := zpow_pos two_pos e

theorem two_zpow_natCast (k : Nat) : ((Nat.pow 2 k : Nat) : ℚ) = 2 ^ (k : Int) := by
  rw [zpow_natCast]
  exact Nat.cast_pow 2 k

theorem two_zpow_log2 (hn : 0 < n) :
    (2 : ℚ) ^ (n.log2 : Int) ≤ n ∧ (n : ℚ) < 2 ^ ((n.log2 : Int) + 1) := by
  have hhigh := two_zpow_natCast (n.log2 + 1)
  push_cast at hhigh
  rw [← two_zpow_natCast, ← hhigh]
  exact ⟨Nat.cast_le.mpr (Nat.log2_self_le hn.ne'), by exact_mod_cast Nat.lt_log2_self⟩

/-- The leading bit of a quotient, and where the unit stands below it. -/
theorem exists_lead (hn : 0 < n) (hd : 0 < d) :
    ∃ lead : Int, unitExponent n d = max (lead - 52) (-1074) ∧
      (2 : ℚ) ^ lead ≤ n / d ∧ (n / d : ℚ) < 2 ^ (lead + 1) := by
  have hd' : (0 : ℚ) < d := Nat.cast_pos.mpr hd
  obtain ⟨hnlow, hnhigh⟩ := two_zpow_log2 hn
  obtain ⟨hdlow, hdhigh⟩ := two_zpow_log2 hd
  -- the two lengths tell the leading bit up to one place
  have hbelow : (n / d : ℚ) < 2 ^ ((n.log2 : Int) - d.log2 + 1) := by
    rw [div_lt_iff₀ hd', show (n.log2 : Int) - d.log2 + 1 = (n.log2 + 1) - d.log2 by ring,
      zpow_sub₀ two_ne_zero, div_mul_eq_mul_div, lt_div_iff₀ (two_zpow_pos _)]
    exact mul_lt_mul hnhigh hdlow (two_zpow_pos _) (two_zpow_pos _).le
  have habove : (2 : ℚ) ^ ((n.log2 : Int) - d.log2 - 1) ≤ n / d := by
    rw [le_div_iff₀ hd', show (n.log2 : Int) - d.log2 - 1 = n.log2 - (d.log2 + 1) by ring,
      zpow_sub₀ two_ne_zero, div_mul_eq_mul_div, div_le_iff₀ (two_zpow_pos _)]
    exact mul_le_mul hnlow hdhigh.le hd'.le (Nat.cast_nonneg n)
  unfold unitExponent
  dsimp only
  generalize (n.log2 : Int) - d.log2 = estimate at hbelow habove ⊢
  have hatLeast : (if 0 ≤ estimate then decide (d * Nat.pow 2 estimate.toNat ≤ n)
      else decide (d ≤ n * Nat.pow 2 (-estimate).toNat)) = true ↔ (2 : ℚ) ^ estimate ≤ n / d := by
    rw [le_div_iff₀ hd']
    split
    · next h =>
      rw [decide_eq_true_iff, ← Nat.cast_le (α := ℚ), Nat.cast_mul, two_zpow_natCast,
        Int.toNat_of_nonneg h, mul_comm]
    · next h =>
      rw [decide_eq_true_iff, ← Nat.cast_le (α := ℚ), Nat.cast_mul, two_zpow_natCast,
        Int.toNat_of_nonneg (by omega), zpow_neg, ← div_eq_mul_inv, le_div_iff₀ (two_zpow_pos _),
        mul_comm]
  generalize (if 0 ≤ estimate then decide (d * Nat.pow 2 estimate.toNat ≤ n)
      else decide (d ≤ n * Nat.pow 2 (-estimate).toNat)) = atLeast at hatLeast ⊢
  by_cases h : atLeast = true
  · exact ⟨estimate, by rw [if_pos h], hatLeast.mp h, hbelow⟩
  · refine ⟨estimate - 1, by rw [if_neg h], habove, ?_⟩
    rw [sub_add_cancel]
    exact not_le.mp fun hle => h (hatLeast.mpr hle)

/-! ## Rounding to whole numbers -/

theorem abs_roundHalfEven_sub_le (n : Nat) (hd : 0 < d) :
    |(roundHalfEven n d : ℚ) - n / d| ≤ 1 / 2 := by
  have hd' : (0 : ℚ) < d := Nat.cast_pos.mpr hd
  obtain ⟨hlow, hhigh⟩ := roundHalfEven_close n d hd
  have hlow : (2 * n : ℚ) ≤ 2 * (d * roundHalfEven n d) + d := by exact_mod_cast hlow
  have hhigh : (2 * (d * roundHalfEven n d) : ℚ) ≤ 2 * n + d := by exact_mod_cast hhigh
  have hn : (n : ℚ) = n / d * d := (div_mul_cancel₀ _ hd'.ne').symm
  rw [abs_le]
  constructor
  · by_contra h
    nlinarith
  · by_contra h
    nlinarith

/-- Only from halfway is a quotient changed by a half, and then an even number comes out. -/
theorem even_roundHalfEven_of_half (hd : 0 < d) (h : |(roundHalfEven n d : ℚ) - n / d| = 1 / 2) :
    roundHalfEven n d % 2 = 0 := by
  refine even_roundHalfEven_of_tie n d ?_
  generalize roundHalfEven n d = m at h
  have hd' : (0 : ℚ) < d := Nat.cast_pos.mpr hd
  have hn : (n : ℚ) = n / d * d := (div_mul_cancel₀ _ hd'.ne').symm
  have htwice : 2 * n = 2 * d * m + d ∨ 2 * n + d = 2 * d * m := by
    rcases (abs_eq one_half_pos.le).mp h with h | h
    · right
      have : (2 * n + d : ℚ) = 2 * d * m := by linear_combination 2 * hn - 2 * d * h
      exact_mod_cast this
    · left
      have : (2 * n : ℚ) = 2 * d * m + d := by linear_combination 2 * hn - 2 * d * h
      exact_mod_cast this
  have hlt : d < 2 * d := by omega
  rw [← Nat.mul_mod_mul_left]
  rcases htwice with htwice | htwice
  · rw [htwice, Nat.mul_add_mod, Nat.mod_eq_of_lt hlt]
  · obtain ⟨k, rfl⟩ : ∃ k, m = k + 1 := Nat.exists_eq_succ_of_ne_zero (by rintro rfl; omega)
    have htwice : 2 * n = 2 * d * k + d := by
      rw [Nat.mul_succ] at htwice
      omega
    rw [htwice, Nat.mul_add_mod, Nat.mod_eq_of_lt hlt]

/-- No whole number is nearer than one that is a half away at most. -/
theorem abs_natCast_sub_le {m : Nat} {v : ℚ} (h : |(m : ℚ) - v| ≤ 1 / 2) (k : Nat) :
    |(m : ℚ) - v| ≤ |(k : ℚ) - v| ∧
      (|(m : ℚ) - v| = |(k : ℚ) - v| → k = m ∨ |(m : ℚ) - v| = 1 / 2) := by
  rcases eq_or_ne k m with rfl | hne
  · exact ⟨le_rfl, fun _ => .inl rfl⟩
  · have hone : (1 : ℚ) ≤ |(k : ℚ) - m| := by
      have hint : (1 : Int) ≤ |(k : Int) - m| :=
        Int.one_le_abs (sub_ne_zero.mpr (Nat.cast_injective.ne hne))
      exact_mod_cast hint
    have htriangle := abs_sub_le (k : ℚ) v m
    rw [abs_sub_comm v] at htriangle
    exact ⟨by linarith, fun heq => .inr (by linarith)⟩

theorem abs_sub_lt_of_below {m k : Nat} {v w : ℚ} (h : |(m : ℚ) - v| ≤ 1 / 2) (hk : (k : ℚ) ≤ v)
    (hw : w < k) : |(m : ℚ) - v| < |w - v| := by
  have hle := (abs_natCast_sub_le h k).1
  rw [abs_of_nonpos (sub_nonpos.mpr hk)] at hle
  rw [abs_of_nonpos (sub_nonpos.mpr (hw.le.trans hk))]
  linarith

/-! ## Values -/

namespace Binary

def magnitude (b : Binary) : ℚ := b.significand * 2 ^ b.exponent

theorem magnitude_nonneg (b : Binary) : 0 ≤ b.magnitude :=
  mul_nonneg (Nat.cast_nonneg _) (two_zpow_pos _).le

theorem ratio_div (b : Binary) : (b.ratio.1 : ℚ) / b.ratio.2 = b.magnitude := by
  unfold ratio magnitude
  split
  · next k h => rw [Nat.cast_mul, two_zpow_natCast, h, Nat.cast_one, div_one]; rfl
  · next k h =>
    rw [two_zpow_natCast, h, Int.negSucc_eq, zpow_neg, div_eq_mul_inv]
    rfl

variable {negative : Bool}

theorem nearest_negative (negative : Bool) (n d : Nat) :
    (nearest negative n d).negative = negative := rfl

/-- The significand is the quotient in units, rounded. -/
theorem nearest_significand (negative : Bool) (n : Nat) (hd : 0 < d) :
    |((nearest negative n d).significand : ℚ) - n / d / 2 ^ unitExponent n d| ≤ 1 / 2 ∧
      (|((nearest negative n d).significand : ℚ) - n / d / 2 ^ unitExponent n d| = 1 / 2 →
        (nearest negative n d).significand % 2 = 0) := by
  unfold nearest
  dsimp only
  split
  · next h =>
    have hpos : 0 < d * Nat.pow 2 (unitExponent n d).toNat := Nat.mul_pos hd (Nat.two_pow_pos _)
    have hunits : ((n : ℚ) / (d * Nat.pow 2 (unitExponent n d).toNat : Nat)) =
        n / d / 2 ^ unitExponent n d := by
      rw [Nat.cast_mul, two_zpow_natCast, Int.toNat_of_nonneg h, ← div_div]
    rw [← hunits]
    exact ⟨abs_roundHalfEven_sub_le n hpos, even_roundHalfEven_of_half hpos⟩
  · next h =>
    have hunits : ((n * Nat.pow 2 (-unitExponent n d).toNat : Nat) / d : ℚ) =
        n / d / 2 ^ unitExponent n d := by
      rw [Nat.cast_mul, two_zpow_natCast, Int.toNat_of_nonneg (by omega), zpow_neg,
        ← div_eq_mul_inv, div_right_comm]
    rw [← hunits]
    exact ⟨abs_roundHalfEven_sub_le _ hd, even_roundHalfEven_of_half hd⟩

/-- The value is half a unit away at most. -/
theorem abs_magnitude_nearest_sub_le_unit (negative : Bool) (n : Nat) (hd : 0 < d) :
    |(nearest negative n d).magnitude - n / d| ≤ 2 ^ unitExponent n d / 2 := by
  have hunit := two_zpow_pos (unitExponent n d)
  have hclose := mul_le_mul_of_nonneg_right (nearest_significand negative n hd).1 hunit.le
  rwa [← abs_of_pos hunit, ← abs_mul, abs_of_pos hunit, sub_mul, div_mul_cancel₀ _ hunit.ne',
    one_div, inv_mul_eq_div] at hclose

theorem significand_nearest_zero (negative : Bool) (hd : 0 < d) :
    (nearest negative 0 d).significand = 0 := by
  have hclose := (nearest_significand negative 0 hd).1
  rw [Nat.cast_zero, zero_div, zero_div, sub_zero, abs_of_nonneg (Nat.cast_nonneg _)] at hclose
  have hlt : ((nearest negative 0 d).significand : ℚ) < 1 := hclose.trans_lt one_half_lt_one
  exact Nat.lt_one_iff.mp (by exact_mod_cast hlt)

/-- The least double that is not zero. -/
def least : ℚ := 2 ^ (-1074 : Int)

theorem least_pos : 0 < least := two_zpow_pos (-1074)

theorem least_le_one : least ≤ 1 := zpow_le_one_of_nonpos₀ one_le_two (by decide)

/-- Rounding changes a quotient by one part in `2 ^ 53` and half the least double at most. -/
theorem abs_magnitude_nearest_sub_le {v : ℚ} (negative : Bool) (hd : 0 < d) (hv : (n / d : ℚ) = v) :
    |(nearest negative n d).magnitude - v| ≤ v / 2 ^ 53 + least / 2 := by
  subst hv
  have hleast := least_pos.le
  rcases Nat.eq_zero_or_pos n with rfl | hn
  · rw [magnitude, significand_nearest_zero negative hd]
    simpa using div_nonneg hleast zero_le_two
  · have hclose := abs_magnitude_nearest_sub_le_unit negative n hd
    obtain ⟨lead, hunit, hlead, -⟩ := exists_lead hn hd
    have hpart : (0 : ℚ) ≤ n / d / 2 ^ 53 := by positivity
    rw [hunit] at hclose
    rcases le_total (lead - 52) (-1074) with h | h
    · rw [max_eq_right h, ← least] at hclose
      linarith
    · rw [max_eq_left h, zpow_sub₀ two_ne_zero] at hclose
      have hle : (2 : ℚ) ^ lead / 2 ^ (52 : Int) / 2 ≤ n / d / 2 ^ 53 := by
        rw [div_div, show (2 : ℚ) ^ (52 : Int) * 2 = 2 ^ 53 by norm_num]
        gcongr
      linarith

/-- A quotient that is no subnormal number is changed by one part in `2 ^ 53` at most. -/
theorem abs_magnitude_nearest_sub_le_of_normal {v : ℚ} (negative : Bool) (hd : 0 < d)
    (hv : (n / d : ℚ) = v) (h : n = 0 ∨ (2 : ℚ) ^ (-1022 : Int) ≤ v) :
    |(nearest negative n d).magnitude - v| ≤ v / 2 ^ 53 := by
  subst hv
  rcases Nat.eq_zero_or_pos n with rfl | hn
  · rw [magnitude, significand_nearest_zero negative hd]
    simp
  · have hclose := abs_magnitude_nearest_sub_le_unit negative n hd
    obtain ⟨lead, hunit, hlead, hlead'⟩ := exists_lead hn hd
    have hnormal := (h.resolve_left hn.ne').trans_lt hlead'
    have hlarge : -1022 < lead + 1 := (zpow_lt_zpow_iff_right₀ one_lt_two).mp hnormal
    rw [hunit, max_eq_left (by omega), zpow_sub₀ two_ne_zero] at hclose
    refine hclose.trans ?_
    rw [div_div, show (2 : ℚ) ^ (52 : Int) * 2 = 2 ^ 53 by norm_num]
    gcongr

/-! ## The nearest double -/

/-- A value is the one nearest to `v` among those of the doubles, of two equally near ones that with
the even significand. -/
structure IsNearest (b : Binary) (v : ℚ) : Prop where
  le {x : Float} {c : Binary} (hc : ofFloat? x = some c) : |b.magnitude - v| ≤ |c.magnitude - v|
  even {x : Float} {c : Binary} (hc : ofFloat? x = some c)
    (heq : |b.magnitude - v| = |c.magnitude - v|) :
    c.magnitude = b.magnitude ∨ b.significand % 2 = 0

theorem bounds_of_ofFloat? {x : Float} {c : Binary} (h : ofFloat? x = some c) :
    c.significand < Nat.pow 2 53 ∧ -1074 ≤ c.exponent := by
  have hfraction : fractionBits x < Nat.pow 2 52 := Nat.mod_lt _ (Nat.two_pow_pos 52)
  have hpow : Nat.pow 2 53 = Nat.pow 2 52 + Nat.pow 2 52 := rfl
  simp only [ofFloat?] at h
  split at h
  · cases h
  · split at h
    · cases h
      exact ⟨hfraction.trans (by decide), le_rfl⟩
    · cases h
      dsimp only
      exact ⟨by omega, by omega⟩

/-- What a double has is a multiple of the unit, unless it is below a multiple that is not above the
quotient. -/
theorem multiple_or_below (hn : 0 < n) (hd : 0 < d) {c : Binary}
    (hc : c.significand < Nat.pow 2 53) (hc' : -1074 ≤ c.exponent) :
    (∃ k : Nat, c.magnitude / 2 ^ unitExponent n d = k) ∨
      ∃ k : Nat, c.magnitude / 2 ^ unitExponent n d < k ∧
        (k : ℚ) ≤ n / d / 2 ^ unitExponent n d := by
  obtain ⟨lead, hunit, hlead, -⟩ := exists_lead hn hd
  have hpos := two_zpow_pos (unitExponent n d)
  by_cases hexponent : unitExponent n d ≤ c.exponent
  · left
    refine ⟨c.significand * Nat.pow 2 (c.exponent - unitExponent n d).toNat, ?_⟩
    rw [Nat.cast_mul, two_zpow_natCast, Int.toNat_of_nonneg (by omega), magnitude, mul_div_assoc,
      zpow_sub₀ two_ne_zero]
  · right
    refine ⟨Nat.pow 2 52, ?_, ?_⟩
    · have hsmall : (c.significand : ℚ) < 2 ^ (53 : Int) :=
        (Nat.cast_lt.mpr hc).trans_eq (two_zpow_natCast 53)
      rw [div_lt_iff₀ hpos, two_zpow_natCast, ← zpow_add₀ two_ne_zero]
      calc c.magnitude < 2 ^ (53 : Int) * 2 ^ c.exponent :=
            mul_lt_mul_of_pos_right hsmall (two_zpow_pos _)
        _ = 2 ^ (53 + c.exponent) := (zpow_add₀ two_ne_zero _ _).symm
        _ ≤ 2 ^ ((52 : Nat) + unitExponent n d) := zpow_le_zpow_right₀ one_le_two (by omega)
    · rw [le_div_iff₀ hpos, two_zpow_natCast, ← zpow_add₀ two_ne_zero]
      exact (zpow_le_zpow_right₀ one_le_two (by omega)).trans hlead

/-- Nothing that a double has room for is nearer, and if it is as near the significand is even. -/
theorem nearest_le (negative : Bool) (hd : 0 < d) {c : Binary} (hc : c.significand < Nat.pow 2 53)
    (hc' : -1074 ≤ c.exponent) :
    |(nearest negative n d).magnitude - n / d| ≤ |c.magnitude - n / d| ∧
      (|(nearest negative n d).magnitude - n / d| = |c.magnitude - n / d| →
        c.magnitude = (nearest negative n d).magnitude ∨
          (nearest negative n d).significand % 2 = 0) := by
  rcases Nat.eq_zero_or_pos n with rfl | hn
  · have hzero := significand_nearest_zero negative hd
    refine ⟨?_, fun _ => .inr (by rw [hzero])⟩
    rw [magnitude, hzero]
    simp
  obtain ⟨hhalf, heven⟩ := nearest_significand negative n hd
  have hpos := two_zpow_pos (unitExponent n d)
  -- distances are measured in units
  have hunits (a : ℚ) : |a - n / d| =
      |a / 2 ^ unitExponent n d - n / d / 2 ^ unitExponent n d| * 2 ^ unitExponent n d := by
    rw [← sub_div, abs_div, abs_of_pos hpos, div_mul_cancel₀ _ hpos.ne']
  have hvalue : (nearest negative n d).magnitude / 2 ^ unitExponent n d =
      (nearest negative n d).significand := mul_div_cancel_right₀ _ hpos.ne'
  rw [hunits, hunits c.magnitude, hvalue, mul_left_inj' hpos.ne', mul_le_mul_iff_left₀ hpos,
    ← div_left_inj' (a := c.magnitude) hpos.ne', hvalue]
  rcases multiple_or_below hn hd hc hc' with ⟨k, hk⟩ | ⟨k, hk, hbelow⟩
  · rw [hk, Nat.cast_inj]
    exact (abs_natCast_sub_le hhalf k).imp_right fun hsame heq => (hsame heq).imp_right heven
  · have hlt := abs_sub_lt_of_below hhalf hbelow hk
    exact ⟨hlt.le, fun heq => absurd heq hlt.ne⟩

theorem isNearest_nearest {v : ℚ} (negative : Bool) (hd : 0 < d) (hv : (n / d : ℚ) = v) :
    IsNearest (nearest negative n d) v := by
  subst hv
  constructor <;> intro x c hc <;> obtain ⟨hsmall, hgrid⟩ := bounds_of_ofFloat? hc
  · exact (nearest_le negative hd hsmall hgrid).1
  · exact (nearest_le negative hd hsmall hgrid).2

/-- What a double has room for is not changed. -/
theorem magnitude_nearest_of_eq (negative : Bool) (hd : 0 < d) {s : Nat} {e : Int}
    (hs : s < Nat.pow 2 53) (he : -1074 ≤ e) (hv : (n / d : ℚ) = s * 2 ^ e) :
    (nearest negative n d).magnitude = n / d := by
  have hgrid : magnitude ⟨negative, s, e⟩ = n / d := hv.symm
  have hle := (nearest_le negative hd (n := n) (c := ⟨negative, s, e⟩) hs he).1
  rw [hgrid, sub_self, abs_zero] at hle
  exact sub_eq_zero.mp (abs_nonpos_iff.mp hle)

/-! ## Bits -/

theorem two_pow_52 : Nat.pow 2 52 = 4503599627370496 := rfl

theorem two_pow_53 : Nat.pow 2 53 = 9007199254740992 := rfl

theorem two_pow_63 : Nat.pow 2 63 = 9223372036854775808 := rfl

theorem two_pow_11 : Nat.pow 2 11 = 2048 := rfl

open Float.Model Float.Model.UnpackedFloat in
/-- Bits that are no infinity and no NaN are kept. -/
theorem toBits_ofBits {u : UInt64} (h : u.toNat / Nat.pow 2 52 % Nat.pow 2 11 ≠ 2047) :
    (Float.ofBits u).toBits = u := by
  have hvalid : Format.binary64.Valid u.toBitVec := by
    refine ⟨fun he => absurd ?_ h⟩
    have hnat := congrArg BitVec.toNat he
    rw [unpackExponent_def, BitVec.extractLsb'_toNat, Nat.shiftRight_eq_div_pow] at hnat
    exact hnat
  exact congrArg UInt64.ofBitVec (pack_unpack_of_valid hvalid)

/-- A value that a double has room for, when its exponent may be as great as it likes. -/
structure Fits (b : Binary) : Prop where
  significand_le : b.significand ≤ Nat.pow 2 53
  exponent_ge : -1074 ≤ b.exponent
  subnormal : b.significand < Nat.pow 2 52 → b.significand = 0 ∨ b.exponent = -1074

theorem fits_nearest (negative : Bool) (n : Nat) (hd : 0 < d) : (nearest negative n d).Fits := by
  have hexponent : (nearest negative n d).exponent = unitExponent n d := rfl
  have hge : -1074 ≤ unitExponent n d := le_max_right _ _
  rcases Nat.eq_zero_or_pos n with rfl | hn
  · have hzero := significand_nearest_zero negative hd
    exact ⟨by rw [hzero]; exact Nat.zero_le _, hge, fun _ => .inl hzero⟩
  · obtain ⟨lead, hunit, hlead, hlead'⟩ := exists_lead hn hd
    have hclose := abs_le.mp (nearest_significand negative n hd).1
    have hpos := two_zpow_pos (unitExponent n d)
    refine ⟨?_, hge, fun hlow => .inr (hexponent.trans ?_)⟩
    · have hlt : (n : ℚ) / d / 2 ^ unitExponent n d < 2 ^ 53 := by
        rw [div_lt_iff₀ hpos, ← zpow_natCast, ← zpow_add₀ two_ne_zero]
        refine hlead'.trans_le (zpow_le_zpow_right₀ one_le_two ?_)
        push_cast
        omega
      have hlt : ((nearest negative n d).significand : ℚ) < (Nat.pow 2 53 + 1 : Nat) := by
        push_cast
        linarith [hclose.2]
      exact Nat.le_of_lt_succ (Nat.cast_lt.mp hlt)
    · by_contra hne
      have heq : unitExponent n d = lead - 52 := by omega
      have hle : (2 : ℚ) ^ 52 ≤ n / d / 2 ^ unitExponent n d := by
        rw [le_div_iff₀ hpos, ← zpow_natCast, ← zpow_add₀ two_ne_zero, heq]
        simpa using hlead
      have hgt : ((Nat.pow 2 52 : Nat) : ℚ) < ((nearest negative n d).significand + 1 : Nat) := by
        push_cast
        linarith [hclose.1]
      exact absurd (Nat.le_of_lt_succ (Nat.cast_lt.mp hgt)) (Nat.not_le.mpr hlow)

theorem isFinite_of_lt {b : Binary} (hb : b.Fits) (h : b.magnitude < 2 ^ (1024 : Int)) :
    b.isFinite = true := by
  have hle := hb.significand_le
  have hge := hb.exponent_ge
  rw [isFinite, decide_eq_true_iff, bits, infinityBits]
  split
  · next hlow => exact hlow.trans_le (Nat.le_mul_of_pos_left _ (by decide))
  · next hhigh =>
    have hbelow {k : Nat} (hk : Nat.pow 2 k ≤ b.significand) : k + b.exponent < 1024 := by
      have hk : (2 : ℚ) ^ (k : Int) ≤ b.significand := by
        rw [← two_zpow_natCast]
        exact Nat.cast_le.mpr hk
      have hpos := two_zpow_pos b.exponent
      rw [← zpow_lt_zpow_iff_right₀ (one_lt_two (α := ℚ)), zpow_add₀ two_ne_zero]
      exact (mul_le_mul_of_nonneg_right hk hpos.le).trans_lt h
    have hexponent := hbelow (Nat.le_of_not_lt hhigh)
    rw [two_pow_52] at hhigh ⊢
    by_cases hcarry : Nat.pow 2 53 ≤ b.significand
    · have := hbelow hcarry
      rw [two_pow_53] at hle
      omega
    · rw [two_pow_53] at hcarry
      omega

theorem toBits_toFloat {b : Binary} (h : b.isFinite = true) :
    b.toFloat.toBits.toNat = if b.negative then Nat.pow 2 63 + b.bits else b.bits := by
  have h : b.bits < infinityBits := decide_eq_true_iff.mp h
  have hfloat : b.toFloat = Float.ofBits (UInt64.ofNat
      (if b.negative then Nat.pow 2 63 + min b.bits infinityBits else min b.bits infinityBits)) :=
    rfl
  rw [Nat.min_eq_left h.le] at hfloat
  rw [infinityBits, two_pow_52] at h
  have hlt : (if b.negative then Nat.pow 2 63 + b.bits else b.bits) < 2 ^ 64 := by
    rw [two_pow_63]
    split <;> omega
  have hnat := UInt64.toNat_ofNat_of_lt' hlt
  rw [hfloat, toBits_ofBits] <;> rw [hnat]
  rw [two_pow_63, two_pow_52, two_pow_11]
  split <;> omega

/-- The fields of the bits are read back. -/
theorem ofFloat?_toFloat_eq {b : Binary} (h : b.isFinite = true) :
    ofFloat? b.toFloat =
      if b.bits / 4503599627370496 = 0 then some ⟨b.negative, b.bits % 4503599627370496, -1074⟩
      else some ⟨b.negative, 4503599627370496 + b.bits % 4503599627370496,
        (b.bits / 4503599627370496 : Nat) - 1075⟩ := by
  have hbits := toBits_toFloat h
  have hlt : b.bits < infinityBits := decide_eq_true_iff.mp h
  rw [infinityBits, two_pow_52] at hlt
  rw [two_pow_63] at hbits
  have hexponent : exponentBits b.toFloat = b.bits / 4503599627370496 := by
    rw [exponentBits, hbits, two_pow_52, two_pow_11]
    split <;> omega
  have hfraction : fractionBits b.toFloat = b.bits % 4503599627370496 := by
    rw [fractionBits, hbits, two_pow_52]
    split <;> omega
  have hsign : signBit b.toFloat = b.negative := by
    rw [signBit, hbits, two_pow_63, beq_eq_decide]
    cases b.negative with
    | false => exact decide_eq_false (by simp only [Bool.false_eq_true, if_false]; omega)
    | true => exact decide_eq_true (by simp only [if_true]; omega)
  have hne : b.bits / 4503599627370496 ≠ 2047 := by omega
  unfold ofFloat?
  simp only [hexponent, hfraction, hsign, if_neg hne, two_pow_52]

/-- The bits of a double are those of its value. -/
theorem ofFloat?_toFloat {b : Binary} (hb : b.Fits) (h : b.isFinite = true) :
    ∃ c, ofFloat? b.toFloat = some c ∧ c.negative = b.negative ∧ c.magnitude = b.magnitude ∧
      (b.significand % 2 = 0 → c.significand % 2 = 0) := by
  have hle := hb.significand_le
  have hge := hb.exponent_ge
  rw [two_pow_53] at hle
  rw [ofFloat?_toFloat_eq h]
  by_cases hlow : b.significand < Nat.pow 2 52
  · have heq : b.bits = b.significand := if_pos hlow
    rw [heq, ← two_pow_52, Nat.div_eq_of_lt hlow, if_pos rfl, Nat.mod_eq_of_lt hlow]
    refine ⟨_, rfl, rfl, ?_, id⟩
    unfold magnitude
    rcases hb.subnormal hlow with hzero | hleast
    · rw [hzero, Nat.cast_zero, zero_mul, zero_mul]
    · rw [hleast]
  · have heq : b.bits = (b.exponent + 1075).toNat * 4503599627370496 +
        (b.significand - 4503599627370496) := if_neg hlow
    rw [two_pow_52] at hlow
    rcases Nat.eq_or_lt_of_le hle with hcarry | hno
    · -- the carry makes the exponent one greater
      have hdiv : b.bits / 4503599627370496 = (b.exponent + 1075).toNat + 1 := by omega
      have hmod : b.bits % 4503599627370496 = 0 := by omega
      have hnext : (((b.exponent + 1075).toNat + 1 : Nat) : Int) - 1075 = b.exponent + 1 := by omega
      rw [hdiv, hmod, if_neg (Nat.succ_ne_zero _), hnext]
      refine ⟨_, rfl, rfl, ?_, fun _ => by dsimp only⟩
      rw [magnitude, magnitude, hcarry, zpow_add_one₀ two_ne_zero]
      norm_num
      ring
    · have hdiv : b.bits / 4503599627370496 = (b.exponent + 1075).toNat := by omega
      have hmod : 4503599627370496 + b.bits % 4503599627370496 = b.significand := by omega
      have hsame : ((b.exponent + 1075).toNat : Int) - 1075 = b.exponent := by omega
      rw [hdiv, hmod, if_neg (by omega), hsame]
      exact ⟨_, rfl, rfl, rfl, id⟩

end Binary

end SpriteStage.Decimal
