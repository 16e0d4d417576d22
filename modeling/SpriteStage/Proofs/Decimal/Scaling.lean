import SpriteStage.Proofs.Decimal.Digits
import SpriteStage.Proofs.Decimal.Nearest

/-!
# How good scaling is

Each step of scaling rounds, and the errors add up. `Within r a b` says that `a` and `b` differ by the
factor `r` at most; such factors are multiplied along the steps. In the end a number is off by less
than one part in `2 ^ 48`, or by the least double: `scaled?_close`. Small numbers times small powers of
ten are not off at all, since all steps but the last are exact then: `scaled?_exact`.
-/

namespace SpriteStage.Decimal

/-! ## Factors -/

/-- Two values differ by a factor at most. -/
def Within (r a b : ℚ) : Prop := a ≤ r * b ∧ b ≤ r * a

namespace Within

variable {r s a b c d : ℚ}

theorem mono (h : Within r a b) (hrs : r ≤ s) (ha : 0 ≤ a) (hb : 0 ≤ b) : Within s a b :=
  ⟨h.1.trans (mul_le_mul_of_nonneg_right hrs hb), h.2.trans (mul_le_mul_of_nonneg_right hrs ha)⟩

theorem trans (h : Within r a b) (h' : Within s b c) (hr : 0 ≤ r) (hs : 0 ≤ s) :
    Within (r * s) a c := by
  constructor
  · calc a ≤ r * b := h.1
      _ ≤ r * (s * c) := mul_le_mul_of_nonneg_left h'.1 hr
      _ = r * s * c := by ring
  · calc c ≤ s * b := h'.2
      _ ≤ s * (r * a) := mul_le_mul_of_nonneg_left h.2 hs
      _ = r * s * a := by ring

theorem mul (h : Within r a b) (h' : Within s c d) (ha : 0 ≤ a) (hb : 0 ≤ b) (hc : 0 ≤ c)
    (hd : 0 ≤ d) (hr : 0 ≤ r) : Within (r * s) (a * c) (b * d) := by
  constructor
  · calc a * c ≤ r * b * (s * d) := mul_le_mul h.1 h'.1 hc (mul_nonneg hr hb)
      _ = r * s * (b * d) := by ring
  · calc b * d ≤ r * a * (s * c) := mul_le_mul h.2 h'.2 hd (mul_nonneg hr ha)
      _ = r * s * (a * c) := by ring

theorem div (h : Within r a b) (h' : Within s c d) (ha : 0 ≤ a) (hb : 0 ≤ b) (hc : 0 < c)
    (hd : 0 < d) (hr : 0 ≤ r) : Within (r * s) (a / c) (b / d) := by
  constructor
  · rw [div_le_iff₀ hc, ← mul_div_assoc, div_mul_eq_mul_div, le_div_iff₀ hd]
    calc a * d ≤ r * b * (s * c) := mul_le_mul h.1 h'.2 hd.le (mul_nonneg hr hb)
      _ = r * s * b * c := by ring
  · rw [div_le_iff₀ hd, ← mul_div_assoc, div_mul_eq_mul_div, le_div_iff₀ hc]
    calc b * c ≤ r * a * (s * d) := mul_le_mul h.2 h'.1 hc.le (mul_nonneg hr ha)
      _ = r * s * a * d := by ring

/-- A value that is off by less than a small part. -/
theorem of_abs_sub_le {e : ℚ} (h : |a - b| ≤ e * b) (hb : 0 ≤ b) (he : 0 ≤ e) (he' : e ≤ 1 / 2) :
    Within (1 + 2 * e) a b := by
  obtain ⟨hlow, hhigh⟩ := abs_le.mp h
  have hpart := mul_nonneg he hb
  constructor
  · linarith
  · have hslack : 0 ≤ e * (1 - 2 * e) * b := mul_nonneg (mul_nonneg he (by linarith)) hb
    have hscaled := mul_le_mul_of_nonneg_left hlow (show (0 : ℚ) ≤ 1 + 2 * e by linarith)
    linarith

theorem sub_le {e : ℚ} (h : Within (1 + e) a b) (he : 0 ≤ e) (hb : 0 ≤ b) :
    |a - b| ≤ e * b := by
  obtain ⟨hhigh, hlow⟩ := h
  rw [abs_le]
  refine ⟨?_, by linarith⟩
  by_contra hlt
  have hscaled := mul_lt_mul_of_pos_left (not_le.mp hlt) (show (0 : ℚ) < 1 + e by linarith)
  have hsquare : 0 ≤ e * e * b := mul_nonneg (mul_nonneg he he) hb
  linarith

theorem pos (h : Within r a b) (hr : 0 ≤ r) (hb : 0 < b) : 0 < a :=
  pos_of_mul_pos_right (hb.trans_le h.2) hr

/-- A value that is off already, after one more rounding. -/
theorem close {e m δ : ℚ} (h : Within (1 + e) a b) (he : 0 ≤ e) (he' : e ≤ 1) (hb : 0 ≤ b)
    (hm : |m - a| ≤ a / 2 ^ 53 + δ) : |m - b| ≤ (e + 1 / 2 ^ 52) * b + δ := by
  have ha : a / 2 ^ 53 ≤ 1 / 2 ^ 52 * b := by
    have hle : (1 + e) * b ≤ 2 * b := mul_le_mul_of_nonneg_right (by linarith) hb
    linarith [h.1]
  calc |m - b| ≤ |m - a| + |a - b| := abs_sub_le m a b
    _ ≤ a / 2 ^ 53 + δ + e * b := add_le_add hm (h.sub_le he hb)
    _ ≤ (e + 1 / 2 ^ 52) * b + δ := by linarith

end Within

/-! ## Steps -/

def step : ℚ := 1 + 1 / 2 ^ 52

theorem step_nonneg : 0 ≤ step := by unfold step; norm_num

theorem within_step {a b : ℚ} (h : |a - b| ≤ b / 2 ^ 53) (hb : 0 ≤ b) : Within step a b := by
  rw [div_eq_inv_mul] at h
  have hwithin := Within.of_abs_sub_le h hb (by norm_num) (by norm_num)
  have hstep : (1 : ℚ) + 2 * (2 ^ 53)⁻¹ = step := by
    unfold step
    norm_num
  rwa [hstep] at hwithin

namespace Binary

variable {x : Binary} {n d k : Nat} {negative : Bool}

theorem within_nearest {v : ℚ} (negative : Bool) (hd : 0 < d) (hv : (n / d : ℚ) = v)
    (h : n = 0 ∨ (2 : ℚ) ^ (-1022 : Int) ≤ v) : Within step (nearest negative n d).magnitude v :=
  within_step (abs_magnitude_nearest_sub_le_of_normal negative hd hv h)
    (hv ▸ div_nonneg (Nat.cast_nonneg n) (Nat.cast_nonneg d))

/-- A whole number is no subnormal number. -/
theorem within_nearest_whole (negative : Bool) (n : Nat) :
    Within step (nearest negative n 1).magnitude n := by
  refine within_nearest negative Nat.one_pos (by rw [Nat.cast_one, div_one]) ?_
  rcases Nat.eq_zero_or_pos n with hzero | hpos
  · exact .inl hzero
  · exact .inr ((zpow_le_one_of_nonpos₀ one_le_two (by decide)).trans (Nat.one_le_cast.mpr hpos))

theorem ten_pow_natCast (k : Nat) : ((Nat.pow 10 k : Nat) : ℚ) = 10 ^ k := Nat.cast_pow 10 k

theorem within_powerOfTen (k : Nat) : Within step (powerOfTen k).magnitude (10 ^ k) :=
  ten_pow_natCast k ▸ within_nearest_whole false (Nat.pow 10 k)

theorem magnitude_powerOfTen_pos (k : Nat) : 0 < (powerOfTen k).magnitude :=
  (within_powerOfTen k).pos step_nonneg (by positivity)

theorem ratio_fst_pos (h : 0 < x.magnitude) : 0 < x.ratio.1 := by
  rw [← ratio_div] at h
  refine Nat.pos_of_ne_zero fun hzero => ?_
  rw [hzero, Nat.cast_zero, zero_div] at h
  exact lt_irrefl _ h

theorem quotient_timesTen (x : Binary) (k : Nat) :
    ((x.ratio.1 * (powerOfTen k).ratio.1 : Nat) : ℚ) / (x.ratio.2 * (powerOfTen k).ratio.2 : Nat) =
      x.magnitude * (powerOfTen k).magnitude := by
  rw [Nat.cast_mul, Nat.cast_mul, mul_div_mul_comm, ratio_div, ratio_div]

theorem quotient_overTen (x : Binary) (k : Nat) :
    ((x.ratio.1 * (powerOfTen k).ratio.2 : Nat) : ℚ) / (x.ratio.2 * (powerOfTen k).ratio.1 : Nat) =
      x.magnitude / (powerOfTen k).magnitude := by
  rw [Nat.cast_mul, Nat.cast_mul, ← ratio_div x, ← ratio_div (powerOfTen k), div_div_div_eq]

theorem overTen_denominator_pos (x : Binary) (k : Nat) : 0 < x.ratio.2 * (powerOfTen k).ratio.1 :=
  Nat.mul_pos x.ratio_snd_pos (ratio_fst_pos (magnitude_powerOfTen_pos k))

theorem overTen_negative (x : Binary) (k : Nat) : (x.overTen k).negative = x.negative :=
  nearest_negative _ _ _

theorem fits_overTen (x : Binary) (k : Nat) : (x.overTen k).Fits :=
  fits_nearest _ _ (overTen_denominator_pos x k)

theorem abs_magnitude_overTen_sub_le (x : Binary) (k : Nat) :
    |(x.overTen k).magnitude - x.magnitude / (powerOfTen k).magnitude| ≤
      x.magnitude / (powerOfTen k).magnitude / 2 ^ 53 + least / 2 :=
  abs_magnitude_nearest_sub_le x.negative (overTen_denominator_pos x k) (quotient_overTen x k)

/-- The factor of a division is added to what a value is off by already. -/
theorem overTen_close {b e f : ℚ} (h : Within (1 + e) x.magnitude b) (hb : 0 ≤ b) (he : 0 ≤ e)
    (hf : (1 + e) * step = 1 + f) (hf' : f ≤ 1) (k : Nat) :
    |(x.overTen k).magnitude - b / 10 ^ k| ≤ (f + 1 / 2 ^ 52) * (b / 10 ^ k) + least / 2 := by
  have hpower := magnitude_powerOfTen_pos k
  have hwithin := h.div (within_powerOfTen k) x.magnitude_nonneg hb hpower (by positivity)
    (by linarith)
  rw [hf] at hwithin
  have hf : 0 ≤ f := by
    have := mul_nonneg he (show (0 : ℚ) ≤ 1 / 2 ^ 52 by norm_num)
    unfold step at hf
    linarith
  exact hwithin.close hf hf' (by positivity) (abs_magnitude_overTen_sub_le x k)

theorem magnitude_of_zero (h : x.significand = 0) : x.magnitude = 0 := by
  rw [magnitude, h, Nat.cast_zero, zero_mul]

theorem ratio_fst_of_zero (h : x.significand = 0) : x.ratio.1 = 0 := by
  unfold ratio
  split
  · rw [h, Nat.zero_mul]
  · exact h

theorem Fits.significand_eq_zero (hx : x.Fits) (h : x.magnitude < least) :
    x.significand = 0 := by
  by_contra hne
  have hone : (1 : ℚ) ≤ x.significand := Nat.one_le_cast.mpr (Nat.pos_of_ne_zero hne)
  have hunit : least ≤ 2 ^ x.exponent := zpow_le_zpow_right₀ one_le_two hx.exponent_ge
  have hle : least ≤ x.magnitude :=
    hunit.trans (le_mul_of_one_le_left (two_zpow_pos _).le hone)
  exact absurd h (not_lt.mpr hle)

theorem overTen_of_zero (h : x.significand = 0) (k : Nat) : (x.overTen k).significand = 0 := by
  unfold overTen
  rw [ratio_fst_of_zero h, Nat.zero_mul]
  exact significand_nearest_zero _ (overTen_denominator_pos x k)

theorem shrink_of_zero (h : x.significand = 0) (k : Nat) : (x.shrink k).significand = 0 := by
  unfold shrink
  split
  · exact overTen_of_zero h k
  · exact h

theorem shrink_of_gt (hk : maxPower < k) (h : x.significand ≠ 0) :
    x.shrink k = (x.overTen maxPower).shrink (k - maxPower) := by
  rw [shrink, if_neg (Nat.not_le.mpr hk), if_neg h]

theorem shrink_of_le (hk : k ≤ maxPower) : x.shrink k = x.overTen k := by
  rw [shrink, if_pos hk]

theorem shrink_negative (x : Binary) (k : Nat) : (x.shrink k).negative = x.negative := by
  fun_induction shrink x k with
  | case1 x k hk => exact overTen_negative x k
  | case2 => rfl
  | case3 x k hk hx ih => rw [ih, overTen_negative]

theorem fits_shrink (hx : x.Fits) (k : Nat) : (x.shrink k).Fits := by
  fun_induction shrink x k with
  | case1 x k => exact fits_overTen x k
  | case2 => exact hx
  | case3 x k hk h ih => exact ih (fits_overTen x maxPower)

/-! ## Whole numbers -/

theorem ten_pow_le_two_zpow {a b : Nat} {e : Int} (h : Nat.pow 10 a ≤ Nat.pow 2 b)
    (he : (b : Int) = e) : (10 : ℚ) ^ a ≤ 2 ^ e := by
  rw [← he, ← two_zpow_natCast, ← ten_pow_natCast]
  exact Nat.cast_le.mpr h

theorem two_zpow_le_ten_pow {a b : Nat} {e : Int} (h : Nat.pow 2 b ≤ Nat.pow 10 a)
    (he : (b : Int) = e) : (2 : ℚ) ^ e ≤ 10 ^ a := by
  rw [← he, ← two_zpow_natCast, ← ten_pow_natCast]
  exact Nat.cast_le.mpr h

/-- The greatest power of ten is below the infinities. -/
theorem ten_pow_maxPower_le : (10 : ℚ) ^ maxPower ≤ 2 ^ (1024 : Int) :=
  ten_pow_le_two_zpow (b := 1024) (by decide +kernel) rfl

/-- Its square is beyond every double. -/
theorem two_zpow_le_square : (2 : ℚ) ^ (1140 : Int) ≤ 10 ^ (2 * maxPower) :=
  two_zpow_le_ten_pow (b := 1140) (by decide +kernel) rfl

/-- The part that scaling may be off by. -/
def slack : ℚ := 14 / 2 ^ 52

theorem slack_nonneg : 0 ≤ slack := by unfold slack; norm_num

theorem slack_le_half : slack ≤ 1 / 2 := by unfold slack; norm_num

/-- How near the value of a number, scaled, is to what it stands for. -/
structure Close (y : Binary) (w : ℚ) : Prop where
  fits : y.Fits
  abs_sub_le : |y.magnitude - w| ≤ slack * w + least / 2

theorem close_of_zero {w : ℚ} (hx : x.Fits) (h : x.significand = 0) (hw : 0 ≤ w)
    (hle : w ≤ least / 2) : Close x w := by
  refine ⟨hx, ?_⟩
  rw [magnitude_of_zero h, zero_sub, abs_neg, abs_of_nonneg hw]
  exact hle.trans (le_add_of_nonneg_left (mul_nonneg slack_nonneg hw))

/-- A whole number divided once. -/
theorem abs_magnitude_overTen_nearest_sub_le (negative : Bool) (n k : Nat) :
    |((nearest negative n 1).overTen k).magnitude - n / 10 ^ k| ≤
      3.5 / 2 ^ 52 * (n / 10 ^ k) + least / 2 := by
  have hwithin := within_nearest_whole negative n
  have hf : (1 + 1 / 2 ^ 52) * step = 1 + (2 / 2 ^ 52 + 1 / 2 ^ 104) := by
    unfold step
    norm_num
  have hclose := overTen_close (x := nearest negative n 1) hwithin (Nat.cast_nonneg n) (by norm_num)
    hf (by norm_num) k
  refine hclose.trans (add_le_add_left (mul_le_mul_of_nonneg_right ?_ (by positivity)) _)
  norm_num

theorem half_least : least / 2 = 1 / 2 ^ 51 * 2 ^ (-1024 : Int) := by
  have hsplit : least = 2 ^ (-50 : Int) * 2 ^ (-1024 : Int) := by
    rw [least, ← zpow_add₀ two_ne_zero]
    rfl
  rw [hsplit, mul_div_right_comm]
  norm_num

/-- Only here a value that goes on to be divided may be a subnormal number. -/
theorem within_overTen_nearest (negative : Bool) (hn : 0 < n) :
    Within (1 + 11 / 2 ^ 52) ((nearest negative n 1).overTen maxPower).magnitude
      (n / 10 ^ maxPower) := by
  have hclose := abs_magnitude_overTen_nearest_sub_le negative n maxPower
  have hten : (0 : ℚ) < 10 ^ maxPower := by positivity
  have hleast : least / 2 ≤ 2 / 2 ^ 52 * (n / 10 ^ maxPower) := by
    have hinv : (2 : ℚ) ^ (-1024 : Int) ≤ n / 10 ^ maxPower := by
      rw [zpow_neg, ← one_div]
      exact div_le_div₀ (Nat.cast_nonneg n) (Nat.one_le_cast.mpr hn) hten ten_pow_maxPower_le
    rw [half_least, show (2 : ℚ) / 2 ^ 52 = 1 / 2 ^ 51 by norm_num]
    exact mul_le_mul_of_nonneg_left hinv (by norm_num)
  have hpart : |((nearest negative n 1).overTen maxPower).magnitude - n / 10 ^ maxPower| ≤
      5.5 / 2 ^ 52 * (n / 10 ^ maxPower) := by
    linarith
  have hwithin := Within.of_abs_sub_le hpart (by positivity) (by norm_num) (by norm_num)
  rwa [show (1 : ℚ) + 2 * (5.5 / 2 ^ 52) = 1 + 11 / 2 ^ 52 by norm_num] at hwithin

/-- A whole number divided twice. -/
theorem abs_magnitude_overTen_twice_sub_le (negative : Bool) (hn : 0 < n) (k : Nat) :
    |(((nearest negative n 1).overTen maxPower).overTen k).magnitude - n / 10 ^ (maxPower + k)| ≤
      slack * (n / 10 ^ (maxPower + k)) + least / 2 := by
  have hf : (1 + 11 / 2 ^ 52) * step = 1 + (12 / 2 ^ 52 + 11 / 2 ^ 104) := by
    unfold step
    norm_num
  have hclose := overTen_close (within_overTen_nearest negative hn) (by positivity) (by norm_num)
    hf (by norm_num) k
  rw [div_div, ← pow_add] at hclose
  refine hclose.trans (add_le_add_left (mul_le_mul_of_nonneg_right ?_ (by positivity)) _)
  unfold slack
  norm_num

/-- A number below every double. -/
theorem div_ten_pow_le (hn : n < Nat.pow 2 64) {k : Nat} (hk : 2 * maxPower ≤ k) :
    (n : ℚ) / 10 ^ k ≤ least / 4 := by
  have hlt : (n : ℚ) ≤ 2 ^ (64 : Int) := by
    have hcast := Nat.cast_le (α := ℚ).mpr hn.le
    rwa [two_zpow_natCast] at hcast
  have hten : (2 : ℚ) ^ (1140 : Int) ≤ 10 ^ k :=
    two_zpow_le_square.trans (pow_le_pow_right₀ (by norm_num) hk)
  calc (n : ℚ) / 10 ^ k ≤ 2 ^ (64 : Int) / 2 ^ (1140 : Int) :=
        div_le_div₀ (two_zpow_pos _).le hlt (two_zpow_pos _) hten
    _ = least / 4 := by
        rw [← zpow_sub₀ two_ne_zero, least, show (4 : ℚ) = 2 ^ (2 : Int) by norm_num,
          ← zpow_sub₀ two_ne_zero]
        rfl

theorem significand_nearest_ne_zero (negative : Bool) (hn : 0 < n) :
    (nearest negative n 1).significand ≠ 0 := by
  intro hzero
  have hvalue := (within_nearest_whole negative n).pos step_nonneg (Nat.cast_pos.mpr hn)
  rw [magnitude_of_zero hzero] at hvalue
  exact lt_irrefl _ hvalue

/-- After the second division by the greatest power nothing is left. -/
theorem overTen_twice_of_lt (negative : Bool) (hn : n < Nat.pow 2 64) (hpos : 0 < n) :
    (((nearest negative n 1).overTen maxPower).overTen maxPower).significand = 0 := by
  apply (fits_overTen _ _).significand_eq_zero
  have hclose := (abs_le.mp (abs_magnitude_overTen_twice_sub_le negative hpos maxPower)).2
  have hsmall := div_ten_pow_le hn (Nat.le_of_eq (Nat.two_mul maxPower))
  have hpart := mul_le_mul_of_nonneg_right slack_le_half
    (show (0 : ℚ) ≤ n / 10 ^ (maxPower + maxPower) by positivity)
  linarith [least_pos]

theorem close_shrink (negative : Bool) (hn : n < Nat.pow 2 64) (k : Nat) :
    Close ((nearest negative n 1).shrink k) (n / 10 ^ k) := by
  have hfits : (nearest negative n 1).Fits := fits_nearest negative n Nat.one_pos
  have hw : (0 : ℚ) ≤ n / 10 ^ k := by positivity
  have hleast := least_pos
  rcases Nat.eq_zero_or_pos n with rfl | hpos
  · refine close_of_zero (fits_shrink hfits k) ?_ hw ?_
    · exact shrink_of_zero (significand_nearest_zero negative Nat.one_pos) k
    · rw [Nat.cast_zero, zero_div]
      linarith
  by_cases hk : k ≤ maxPower
  · refine ⟨fits_shrink hfits k, ?_⟩
    rw [shrink_of_le hk]
    refine (abs_magnitude_overTen_nearest_sub_le negative n k).trans
      (add_le_add_left (mul_le_mul_of_nonneg_right ?_ hw) _)
    unfold slack
    norm_num
  have honce := shrink_of_gt (Nat.lt_of_not_le hk) (significand_nearest_ne_zero negative hpos)
  by_cases hk' : k - maxPower ≤ maxPower
  · refine ⟨fits_shrink hfits k, ?_⟩
    have hclose := abs_magnitude_overTen_twice_sub_le negative hpos (k - maxPower)
    rw [Nat.add_sub_cancel' (Nat.le_of_not_le hk)] at hclose
    rwa [honce, shrink_of_le hk']
  · refine close_of_zero (fits_shrink hfits k) ?_ hw ?_
    · rw [honce]
      by_cases hfirst : ((nearest negative n 1).overTen maxPower).significand = 0
      · exact shrink_of_zero hfirst _
      · rw [shrink_of_gt (Nat.lt_of_not_le hk') hfirst]
        exact shrink_of_zero (overTen_twice_of_lt negative hn hpos) _
    · have htwice : 2 * maxPower ≤ k := by omega
      linarith [div_ten_pow_le hn htwice]

/-- A product is no subnormal number. -/
theorem within_timesTen (negative : Bool) (n k : Nat) :
    Within (step * (step * step)) ((nearest negative n 1).timesTen k).magnitude (n * 10 ^ k) := by
  have hwhole := within_nearest_whole negative n
  have hpower := magnitude_powerOfTen_pos k
  have hvalue := (nearest negative n 1).magnitude_nonneg
  have hproduct := hwhole.mul (within_powerOfTen k) hvalue (Nat.cast_nonneg n) hpower.le
    (by positivity) step_nonneg
  refine .trans ?_ hproduct step_nonneg (mul_nonneg step_nonneg step_nonneg)
  refine within_nearest _ (Nat.mul_pos (ratio_snd_pos _) (ratio_snd_pos _))
    (quotient_timesTen _ k) ?_
  rcases Nat.eq_zero_or_pos n with rfl | hn
  · left
    rw [ratio_fst_of_zero (significand_nearest_zero negative Nat.one_pos), Nat.zero_mul]
  · right
    have hone : (1 : ℚ) ≤ n * 10 ^ k :=
      one_le_mul_of_one_le_of_one_le (Nat.one_le_cast.mpr hn) (one_le_pow₀ (by norm_num))
    have hhalf : (2 : ℚ) ^ (-1022 : Int) ≤ 1 / 2 := by
      rw [one_div, ← zpow_neg_one]
      exact zpow_le_zpow_right₀ one_le_two (by decide)
    refine hhalf.trans ?_
    have hle := hproduct.2
    have hstep : step * step ≤ 2 := by unfold step; norm_num
    have hscaled := mul_le_mul_of_nonneg_right hstep (mul_nonneg hvalue hpower.le)
    linarith

theorem close_timesTen (negative : Bool) (n k : Nat) :
    Close ((nearest negative n 1).timesTen k) (n * 10 ^ k) := by
  have hnonneg : (0 : ℚ) ≤ n * 10 ^ k := by positivity
  have hfactor : step * (step * step) ≤ 1 + slack := by unfold step slack; norm_num
  have hwithin := (within_timesTen negative n k).mono hfactor (magnitude_nonneg _) hnonneg
  refine ⟨fits_nearest _ _ (Nat.mul_pos (ratio_snd_pos _) (ratio_snd_pos _)), ?_⟩
  exact (hwithin.sub_le slack_nonneg hnonneg).trans (le_add_of_nonneg_right (half_pos least_pos).le)

/-- What comes of sixty-four bits without a power of ten is below the infinities. -/
theorem lt_two_zpow_of_le {v : ℚ} (hn : n < Nat.pow 2 64) (h : v ≤ 2 * n + 1) :
    v < 2 ^ (1024 : Int) := by
  have hlt : 2 * n + 1 < Nat.pow 2 65 := by
    have hpow : Nat.pow 2 65 = 2 * Nat.pow 2 64 := by decide
    omega
  have hcast : ((2 * n + 1 : Nat) : ℚ) < 2 ^ (65 : Int) :=
    (Nat.cast_lt.mpr hlt).trans_eq (two_zpow_natCast 65)
  rw [Nat.cast_add, Nat.cast_mul, Nat.cast_one, Nat.cast_ofNat] at hcast
  exact (h.trans_lt hcast).trans_le (zpow_le_zpow_right₀ one_le_two (by decide))

/-- **Scaling is close.** What comes out is off by less than one part in `2 ^ 48` of the number, or by
the least double. -/
theorem scaled?_close (hn : n < Nat.pow 2 64) {power : Int} {y : Binary}
    (h : scaled? negative n power = some y) :
    y.negative = negative ∧ y.isFinite = true ∧ Close y (n * 10 ^ power) := by
  cases power with
  | ofNat k =>
      rw [Int.ofNat_eq_natCast, zpow_natCast]
      simp only [scaled?] at h
      split at h
      · split at h
        · next hfinite =>
          cases h
          exact ⟨nearest_negative _ _ _, hfinite, close_timesTen negative n k⟩
        · cases h
      · split at h
        · next hzero =>
          cases h
          have hfits : (nearest negative n 1).Fits := fits_nearest negative n Nat.one_pos
          have hn : (n : ℚ) = 0 := by
            have hle := (within_nearest_whole negative n).2
            rw [magnitude_of_zero hzero, mul_zero] at hle
            exact le_antisymm hle (Nat.cast_nonneg n)
          refine ⟨nearest_negative _ _ _, isFinite_of_lt hfits ?_, ?_⟩
          · rw [magnitude_of_zero hzero]
            exact two_zpow_pos _
          · have hleast := least_pos
            refine close_of_zero hfits hzero ?_ ?_ <;> rw [hn, zero_mul]
            linarith
        · cases h
  | negSucc k =>
      cases h
      rw [zpow_negSucc, ← div_eq_mul_inv]
      have hclose := close_shrink negative hn (k + 1)
      refine ⟨(shrink_negative _ _).trans (nearest_negative _ _ _),
        isFinite_of_lt hclose.fits ?_, hclose⟩
      have hhigh := (abs_le.mp hclose.abs_sub_le).2
      have hquotient : (n : ℚ) / 10 ^ (k + 1) ≤ n :=
        div_le_self (Nat.cast_nonneg n) (one_le_pow₀ (by norm_num))
      have hpart := mul_le_mul_of_nonneg_right slack_le_half
        (show (0 : ℚ) ≤ n / 10 ^ (k + 1) by positivity)
      refine lt_two_zpow_of_le hn ?_
      linarith [least_le_one]

/-! ## Exact steps -/

theorem magnitude_nearest_of_lt (negative : Bool) (hn : n < Nat.pow 2 53) :
    (nearest negative n 1).magnitude = n := by
  have hone : (n : ℚ) / (1 : Nat) = n := by rw [Nat.cast_one, div_one]
  rw [magnitude_nearest_of_eq negative Nat.one_pos hn (e := 0) (by decide), hone]
  rw [hone, zpow_zero, mul_one]

theorem magnitude_powerOfTen (hk : k ≤ 22) : (powerOfTen k).magnitude = 10 ^ k := by
  have hfive : Nat.pow 5 k < Nat.pow 2 53 :=
    (Nat.pow_le_pow_right (by decide) hk).trans_lt (by decide)
  have hvalue : ((Nat.pow 10 k : Nat) : ℚ) / (1 : Nat) = (Nat.pow 5 k : Nat) * 2 ^ (k : Int) := by
    rw [Nat.cast_one, div_one, ten_pow_natCast, ← two_zpow_natCast, ← Nat.cast_mul]
    exact_mod_cast (Nat.mul_pow 5 2 k)
  rw [powerOfTen, magnitude_nearest_of_eq false Nat.one_pos hfive (by omega) hvalue, Nat.cast_one,
    div_one, ten_pow_natCast]

/-- **Small numbers are read exactly.** A number of fifty-three bits and a power of ten that is a double
are not rounded, so only their product or quotient is. -/
theorem scaled?_exact (hn : n < Nat.pow 2 53) {power : Int} (hpower : power.natAbs ≤ 22) {y : Binary}
    (h : scaled? negative n power = some y) : y.IsNearest (n * 10 ^ power) := by
  have hwhole := magnitude_nearest_of_lt negative hn
  cases power with
  | ofNat k =>
      have hk : k ≤ 22 := hpower
      have hmax : k ≤ maxPower := hk.trans (by decide)
      simp only [scaled?, if_pos hmax] at h
      split at h
      · cases h
        refine isNearest_nearest _ (Nat.mul_pos (ratio_snd_pos _) (ratio_snd_pos _)) ?_
        rw [quotient_timesTen, hwhole, magnitude_powerOfTen hk]
        rfl
      · cases h
  | negSucc k =>
      have hk : k + 1 ≤ 22 := hpower
      cases h
      rw [shrink_of_le (hk.trans (by decide))]
      refine isNearest_nearest _ (overTen_denominator_pos _ _) ?_
      rw [quotient_overTen, hwhole, magnitude_powerOfTen hk, zpow_negSucc, div_eq_mul_inv]

end Binary

end SpriteStage.Decimal
