import ContentSpace.Number.Double
import Mathlib.Algebra.Order.Field.Power
import Mathlib.Data.Rat.Cast.Order
import Mathlib.Tactic.FieldSimp
import Mathlib.Tactic.Linarith
import Mathlib.Tactic.NormNum
import Mathlib.Tactic.Positivity
import Mathlib.Tactic.Ring

/-!
# Rounding what needs no rounding

A finite magnitude stands for a whole number of binary units. Rounding a quotient that is exactly
this number gives the magnitude back: the binary logarithm finds the unit again, and the quotient
in that unit leaves no remainder. This is the half of correct rounding that reading back a written
double needs; it holds for every form in which the number can be given as a quotient.
-/

namespace ContentSpace.Double

/-- The number a finite magnitude stands for. -/
def number (magnitude : Nat) : ℚ := significand magnitude * (2 : ℚ) ^ weight magnitude

/-- An integer power of two as a quotient of whole powers. -/
theorem two_zpow (exponent : Int) :
    (2 : ℚ) ^ exponent = 2 ^ exponent.toNat / 2 ^ (-exponent).toNat := by
  have parts : exponent = (exponent.toNat : Int) - ((-exponent).toNat : Int) := by omega
  have split := zpow_sub₀ (by norm_num : (2 : ℚ) ≠ 0) exponent.toNat (-exponent).toNat
  rw [← parts] at split
  simpa only [zpow_natCast] using split

/-- A power of two is at most a quotient when the shifted denominator is at most the shifted
numerator. -/
theorem shifted_le_iff {numerator denominator : Nat} (exponent : Int)
    (positive : 0 < denominator) :
    denominator <<< exponent.toNat ≤ numerator <<< (-exponent).toNat ↔
      (2 : ℚ) ^ exponent ≤ (numerator : ℚ) / denominator := by
  have denominatorPositive : (0 : ℚ) < denominator := by exact_mod_cast positive
  rw [two_zpow, div_le_div_iff₀ (by positivity) denominatorPositive, Nat.shiftLeft_eq,
    Nat.shiftLeft_eq, mul_comm denominator]
  norm_cast

/-- A number other than zero lies between the powers of two around its logarithm. -/
theorem log2_bounds {n : Nat} (positive : 0 < n) :
    (2 : ℚ) ^ (n.log2 : Int) ≤ n ∧ (n : ℚ) < (2 : ℚ) ^ ((n.log2 : Int) + 1) := by
  have lower := Nat.log2_self_le (Nat.ne_of_gt positive)
  have upper := Nat.lt_log2_self (n := n)
  constructor
  · rw [zpow_natCast]
    exact_mod_cast lower
  · rw [show (n.log2 : Int) + 1 = ((n.log2 + 1 : Nat) : Int) by omega, zpow_natCast]
    exact_mod_cast upper

/-- The binary logarithm of a quotient is the exponent of the power of two that the quotient
reaches without reaching the next. -/
theorem binaryLogarithm_eq {numerator denominator : Nat} {exponent : Int}
    (numeratorPositive : 0 < numerator) (denominatorPositive : 0 < denominator)
    (lower : (2 : ℚ) ^ exponent ≤ (numerator : ℚ) / denominator)
    (upper : (numerator : ℚ) / denominator < (2 : ℚ) ^ (exponent + 1)) :
    binaryLogarithm numerator denominator = exponent := by
  have two : (1 : ℚ) < 2 := by norm_num
  have above := log2_bounds numeratorPositive
  have below := log2_bounds denominatorPositive
  have quotientPositive : (0 : ℚ) < denominator := by exact_mod_cast denominatorPositive
  let guess : Int := (numerator.log2 : Int) - denominator.log2
  -- The logarithms of both parts leave two candidates for the logarithm of the quotient.
  have guessAbove : (numerator : ℚ) / denominator < (2 : ℚ) ^ (guess + 1) := by
    rw [div_lt_iff₀ quotientPositive]
    calc (numerator : ℚ) < (2 : ℚ) ^ ((numerator.log2 : Int) + 1) := above.2
      _ = (2 : ℚ) ^ (guess + 1) * (2 : ℚ) ^ (denominator.log2 : Int) := by
        rw [← zpow_add₀ (by norm_num)]
        congr 1
        omega
      _ ≤ (2 : ℚ) ^ (guess + 1) * denominator := by
        exact mul_le_mul_of_nonneg_left below.1 (by positivity)
  have guessBelow : (2 : ℚ) ^ (guess - 1) < (numerator : ℚ) / denominator := by
    rw [lt_div_iff₀ quotientPositive]
    calc (2 : ℚ) ^ (guess - 1) * denominator
        < (2 : ℚ) ^ (guess - 1) * (2 : ℚ) ^ ((denominator.log2 : Int) + 1) := by
          exact mul_lt_mul_of_pos_left below.2 (by positivity)
      _ = (2 : ℚ) ^ (numerator.log2 : Int) := by
        rw [← zpow_add₀ (by norm_num)]
        congr 1
        omega
      _ ≤ numerator := above.1
  have atMost : exponent < guess + 1 :=
    (zpow_lt_zpow_iff_right₀ two).mp (lt_of_le_of_lt lower guessAbove)
  have atLeast : guess - 1 < exponent + 1 :=
    (zpow_lt_zpow_iff_right₀ two).mp (lt_trans guessBelow upper)
  simp only [binaryLogarithm]
  split
  next reached =>
    have reaches := (shifted_le_iff guess denominatorPositive).mp reached
    have inside : guess < exponent + 1 :=
      (zpow_lt_zpow_iff_right₀ two).mp (lt_of_le_of_lt reaches upper)
    change guess = exponent
    omega
  next missed =>
    have misses : ¬ (2 : ℚ) ^ guess ≤ (numerator : ℚ) / denominator :=
      fun reaches => missed ((shifted_le_iff guess denominatorPositive).mpr reaches)
    have outside : exponent < guess :=
      (zpow_lt_zpow_iff_right₀ two).mp (lt_of_le_of_lt lower (not_le.mp misses))
    change guess - 1 = exponent
    omega

/-- A quotient without remainder is not changed by rounding. -/
theorem roundedQuotient_mul (count : Nat) {denominator : Nat} (positive : 0 < denominator) :
    roundedQuotient (count * denominator) denominator = count := by
  simp [roundedQuotient, Nat.mul_div_cancel _ positive, positive]

/-- A magnitude other than zero has significant bits. -/
theorem significand_pos {magnitude : Nat} (positive : 0 < magnitude) :
    0 < significand magnitude := by
  by_cases subnormal : magnitude < fractionCount
  · simpa only [significand, if_pos subnormal] using positive
  · have count : 0 < fractionCount := by decide
    simp only [significand, if_neg subnormal]
    omega

/-- A magnitude has at most 53 significant bits. -/
theorem significand_lt (magnitude : Nat) : significand magnitude < 2 * fractionCount := by
  have remainder := Nat.mod_lt magnitude (show 0 < fractionCount by decide)
  by_cases subnormal : magnitude < fractionCount
  · simp only [significand, if_pos subnormal]
    omega
  · simp only [significand, if_neg subnormal]
    omega

/-- The units of finite magnitudes range over the exponents of doubles. -/
theorem weight_bounds {magnitude : Nat} (finite : magnitude < infiniteMagnitude) :
    -1074 ≤ weight magnitude ∧ weight magnitude ≤ 971 := by
  have quotient : magnitude / fractionCount < 0x7ff :=
    Nat.div_lt_of_lt_mul (by simpa only [infiniteMagnitude, Nat.mul_comm] using finite)
  by_cases subnormal : magnitude < fractionCount
  · simp only [weight, if_pos subnormal]
    omega
  · have normal : 1 ≤ magnitude / fractionCount := by
      rw [Nat.le_div_iff_mul_le (by decide)]
      omega
    simp only [weight, if_neg subnormal]
    omega

/-- The unit of a magnitude follows from the number of its significant bits. -/
theorem weight_eq {magnitude : Nat} (positive : 0 < magnitude) :
    weight magnitude =
      max (-1074) ((significand magnitude).log2 + weight magnitude - 52) := by
  by_cases subnormal : magnitude < fractionCount
  · have bits : magnitude.log2 < 52 := by
      rw [Nat.log2_lt (by omega)]
      exact subnormal
    simp only [weight, significand, if_pos subnormal]
    omega
  · have bits : (fractionCount + magnitude % fractionCount).log2 = 52 := by
      have remainder := Nat.mod_lt magnitude (show 0 < fractionCount by decide)
      rw [Nat.log2_eq_iff (by simp only [fractionCount]; omega)]
      simp only [fractionCount] at remainder ⊢
      omega
    have quotient : 1 ≤ magnitude / fractionCount := by
      rw [Nat.le_div_iff_mul_le (by decide)]
      omega
    simp only [weight, significand, if_neg subnormal, bits]
    omega

/-- The unit and the significant bits of a magnitude make it up again. -/
theorem magnitude_eq (magnitude : Nat) :
    (weight magnitude + 1074).toNat * fractionCount + significand magnitude = magnitude := by
  by_cases subnormal : magnitude < fractionCount
  · simp [weight, significand, if_pos subnormal]
  · have quotient : 1 ≤ magnitude / fractionCount := by
      rw [Nat.le_div_iff_mul_le (by decide)]
      omega
    have whole := Nat.div_add_mod magnitude fractionCount
    have exponent : (((magnitude / fractionCount : Nat) : Int) - 1075 + 1074).toNat =
        magnitude / fractionCount - 1 := by omega
    simp only [weight, significand, if_neg subnormal, exponent]
    simp only [fractionCount] at whole quotient ⊢
    omega

/-- The numbers of finite magnitudes other than zero lie between the smallest double and the
power of two above the greatest. -/
theorem number_bounds {magnitude : Nat} (positive : 0 < magnitude)
    (finite : magnitude < infiniteMagnitude) :
    (2 : ℚ) ^ (-1074 : Int) ≤ number magnitude ∧ number magnitude < (2 : ℚ) ^ (1024 : Int) := by
  have units : (1 : ℚ) ≤ significand magnitude := by exact_mod_cast significand_pos positive
  have fewBits : (significand magnitude : ℚ) < (2 : ℚ) ^ (53 : Int) := by
    have bits := significand_lt magnitude
    simp only [fractionCount] at bits
    norm_num
    exact_mod_cast bits
  have range := weight_bounds finite
  have unitLower := zpow_le_zpow_right₀ (by norm_num : (1 : ℚ) ≤ 2) range.1
  have unitUpper := zpow_le_zpow_right₀ (by norm_num : (1 : ℚ) ≤ 2) range.2
  have unitPositive : (0 : ℚ) < (2 : ℚ) ^ weight magnitude := by positivity
  constructor
  · have lower := mul_le_mul_of_nonneg_right units unitPositive.le
    rw [one_mul] at lower
    exact le_trans unitLower lower
  · calc number magnitude < (2 : ℚ) ^ (53 : Int) * (2 : ℚ) ^ weight magnitude :=
        mul_lt_mul_of_pos_right fewBits unitPositive
      _ ≤ (2 : ℚ) ^ (53 : Int) * (2 : ℚ) ^ (971 : Int) :=
        mul_le_mul_of_nonneg_left unitUpper (by positivity)
      _ = (2 : ℚ) ^ (1024 : Int) := by
        rw [show (1024 : Int) = 53 + 971 by norm_num, zpow_add₀ (by norm_num)]

/-- Rounding a quotient that is exactly the number of a finite magnitude gives the magnitude. -/
theorem nearestMagnitude_of_number {numerator denominator magnitude : Nat}
    (positive : 0 < magnitude) (finite : magnitude < infiniteMagnitude)
    (denominatorPositive : 0 < denominator)
    (exact : (numerator : ℚ) / denominator = number magnitude) :
    nearestMagnitude numerator denominator = magnitude := by
  have bits := significand_pos positive
  have bounds := log2_bounds bits
  have unitPositive : (0 : ℚ) < (2 : ℚ) ^ weight magnitude := by positivity
  have quotientPositive : (0 : ℚ) < denominator := by exact_mod_cast denominatorPositive
  have numeratorPositive : 0 < numerator := by
    have significandPositive : (0 : ℚ) < significand magnitude := by exact_mod_cast bits
    have quotient : (0 : ℚ) < (numerator : ℚ) / denominator := by
      rw [exact, number]
      positivity
    rw [lt_div_iff₀ quotientPositive, zero_mul] at quotient
    exact_mod_cast quotient
  have logarithm : binaryLogarithm numerator denominator =
      (significand magnitude).log2 + weight magnitude := by
    apply binaryLogarithm_eq numeratorPositive denominatorPositive
    · rw [exact, number, zpow_add₀ (by norm_num)]
      exact mul_le_mul_of_nonneg_right bounds.1 unitPositive.le
    · rw [exact, number, add_right_comm, zpow_add₀ (by norm_num)]
      exact mul_lt_mul_of_pos_right bounds.2 unitPositive
  have units : numerator <<< (-weight magnitude).toNat =
      significand magnitude * (denominator <<< (weight magnitude).toNat) := by
    rw [div_eq_iff quotientPositive.ne', number, two_zpow] at exact
    field_simp at exact
    rw [Nat.shiftLeft_eq, Nat.shiftLeft_eq, mul_comm denominator, ← mul_assoc]
    exact_mod_cast exact
  have unitCount : 0 < denominator <<< (weight magnitude).toNat := by
    rw [Nat.shiftLeft_eq]
    positivity
  have unit : max (-1074) (binaryLogarithm numerator denominator - 52) = weight magnitude := by
    rw [logarithm]
    exact (weight_eq positive).symm
  rw [nearestMagnitude, if_neg numeratorPositive.ne']
  simp only [unit, units, roundedQuotient_mul _ unitCount, magnitude_eq]
  exact Nat.min_eq_right finite.le

end ContentSpace.Double
