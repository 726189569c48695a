import ContentSpace.Number.Shortest
import ContentSpace.Proofs.Number.Numeral
import ContentSpace.Proofs.Number.Rounding

/-!
# The shortest decimal reads back

Whatever decimal is chosen for a finite magnitude, the magnitude is the one nearest to it. A
decimal found in some unit was tried before it was taken; if no unit up to seventeen digits holds
one, all digits are taken, and they stand for exactly the number of the magnitude. The chosen
decimal is also the one in its greatest unit, so that its last digit is not zero.
-/

namespace ContentSpace.Decimal

/-- The number a decimal stands for. -/
def number (decimal : Decimal) : ℚ := decimal.units * (10 : ℚ) ^ decimal.exponent

/-- Changing to the greatest unit does not change the number. -/
theorem number_normal (units : Nat) (exponent : Int) :
    (normal units exponent).number = units * (10 : ℚ) ^ exponent := by
  induction units, exponent using normal.induct with
  | case1 exponent => simp [normal, number]
  | case2 units exponent positive zeroEnd ih =>
    have tenth : (units : ℚ) = (units / 10 : Nat) * 10 := by
      exact_mod_cast (Nat.div_mul_cancel (Nat.dvd_of_mod_eq_zero zeroEnd)).symm
    rw [normal, if_neg positive, if_pos zeroEnd, ih, tenth, zpow_add₀ (by norm_num)]
    ring
  | case3 units exponent positive otherEnd =>
    rw [normal, if_neg positive, if_neg otherEnd, number]

/-- In the greatest unit the last digit is not zero. -/
theorem units_normal_mod {units : Nat} (exponent : Int) (positive : units ≠ 0) :
    (normal units exponent).units % 10 ≠ 0 := by
  induction units, exponent using normal.induct with
  | case1 exponent => exact absurd rfl positive
  | case2 units exponent _ zeroEnd ih =>
    rw [normal, if_neg positive, if_pos zeroEnd]
    exact ih (by omega)
  | case3 units exponent _ otherEnd =>
    rw [normal, if_neg positive, if_neg otherEnd]
    exact otherEnd

/-- Zeros at the end of the units go into the unit. -/
theorem normal_mul_pow {units : Nat} (exponent : Int) (count : Nat) (ends : units % 10 ≠ 0) :
    normal (units * 10 ^ count) exponent = ⟨units, exponent + count⟩ := by
  induction count generalizing exponent with
  | zero =>
    have positive : units ≠ 0 := by omega
    simp [normal, positive, ends]
  | succ count ih =>
    have positive : units * 10 ^ (count + 1) ≠ 0 :=
      Nat.mul_ne_zero (by omega) (by positivity)
    have split : units * 10 ^ (count + 1) = units * 10 ^ count * 10 := by ring
    have zeroEnd : units * 10 ^ (count + 1) % 10 = 0 := by omega
    have tenth : units * 10 ^ (count + 1) / 10 = units * 10 ^ count := by omega
    rw [normal, if_neg positive, if_pos zeroEnd, tenth, ih]
    congr 1
    push_cast
    ring

/-- A decimal lies between the powers of ten around its first digit. -/
theorem number_bounds {decimal : Decimal} (positive : 0 < decimal.units) :
    (10 : ℚ) ^ ((Numeral.digits decimal.units).length + decimal.exponent - 1) ≤ decimal.number ∧
      decimal.number <
        (10 : ℚ) ^ ((Numeral.digits decimal.units).length + decimal.exponent) := by
  have lower := Numeral.pow_length_digits_le positive
  have upper := Numeral.lt_pow_length_digits decimal.units
  have count : 0 < (Numeral.digits decimal.units).length :=
    List.length_pos_iff.mpr (Numeral.digits_ne_nil _)
  have unit : (0 : ℚ) < (10 : ℚ) ^ decimal.exponent := by positivity
  constructor
  · have exponent : ((Numeral.digits decimal.units).length + decimal.exponent - 1 : Int) =
        (((Numeral.digits decimal.units).length - 1 : Nat) : Int) + decimal.exponent := by omega
    rw [exponent, zpow_add₀ (by norm_num), zpow_natCast]
    exact mul_le_mul_of_nonneg_right (by exact_mod_cast lower) unit.le
  · rw [zpow_add₀ (by norm_num), zpow_natCast]
    exact mul_lt_mul_of_pos_right (by exact_mod_cast upper) unit

/-- Every number below the greatest doubles is far below the powers of ten that are rounded to
infinity. -/
theorem two_pow_lt_ten_pow : (2 : ℚ) ^ (1024 : Nat) < (10 : ℚ) ^ (310 : Nat) := by
  have base : (2 : ℚ) ^ 93 ≤ 10 ^ 28 := by norm_num
  have block : ((2 : ℚ) ^ 93) ^ 11 ≤ ((10 : ℚ) ^ 28) ^ 11 :=
    pow_le_pow_left₀ (by positivity) base 11
  calc (2 : ℚ) ^ 1024 = ((2 : ℚ) ^ 93) ^ 11 * 2 := by rw [← pow_mul, ← pow_succ]
    _ ≤ ((10 : ℚ) ^ 28) ^ 11 * 2 := mul_le_mul_of_nonneg_right block (by norm_num)
    _ < ((10 : ℚ) ^ 28) ^ 11 * 10 ^ 2 := by
      exact mul_lt_mul_of_pos_left (by norm_num) (by positivity)
    _ = (10 : ℚ) ^ 310 := by rw [← pow_mul, ← pow_add]

/-- Every number other than zero is far above the powers of ten that are rounded to zero. -/
theorem ten_zpow_lt_two_zpow : (10 : ℚ) ^ (-330 : Int) < (2 : ℚ) ^ (-1074 : Int) := by
  have tail : (2 : ℚ) ^ 50 < 10 ^ 20 := by norm_num
  have block : (2 : ℚ) ^ 1074 < (10 : ℚ) ^ 330 := by
    calc (2 : ℚ) ^ 1074 = (2 : ℚ) ^ 1024 * 2 ^ 50 := by rw [← pow_add]
      _ < (10 : ℚ) ^ 310 * 10 ^ 20 :=
        mul_lt_mul two_pow_lt_ten_pow tail.le (by positivity) (by positivity)
      _ = (10 : ℚ) ^ 330 := by rw [← pow_add]
  have exponents : (-330 : Int) = -((330 : Nat) : Int) ∧ (-1074 : Int) = -((1074 : Nat) : Int) :=
    ⟨rfl, rfl⟩
  rw [exponents.1, exponents.2, zpow_neg, zpow_neg, zpow_natCast, zpow_natCast]
  exact inv_strictAnti₀ (by positivity) block

/-- A decimal that stands for exactly the number of a finite magnitude is rounded to it. -/
theorem nearestMagnitude_of_number {decimal : Decimal} {magnitude : Nat}
    (positive : 0 < magnitude) (finite : magnitude < Double.infiniteMagnitude)
    (exact : decimal.number = Double.number magnitude) :
    decimal.nearestMagnitude = magnitude := by
  have range := Double.number_bounds positive finite
  have numberPositive : 0 < decimal.number := by
    rw [exact]
    exact lt_of_lt_of_le (by positivity) range.1
  have unitsPositive : 0 < decimal.units := by
    rcases Nat.eq_zero_or_pos decimal.units with zero | positive
    · simp [number, zero] at numberPositive
    · exact positive
  have bounds := number_bounds unitsPositive
  rw [exact] at bounds
  have ten : (1 : ℚ) < 10 := by norm_num
  -- The first digit stands where neither shortcut of the rounding applies.
  have notTiny : -330 < ((Numeral.digits decimal.units).length + decimal.exponent : Int) :=
    (zpow_lt_zpow_iff_right₀ ten).mp
      (lt_trans (lt_of_lt_of_le ten_zpow_lt_two_zpow range.1) bounds.2)
  have notHuge : ((Numeral.digits decimal.units).length + decimal.exponent - 1 : Int) < 310 := by
    have upper := two_pow_lt_ten_pow
    rw [← zpow_natCast, ← zpow_natCast] at upper
    exact (zpow_lt_zpow_iff_right₀ ten).mp
      (lt_of_le_of_lt bounds.1 (lt_trans range.2 upper))
  have quotient : ((decimal.units * Nat.pow 10 decimal.exponent.toNat : Nat) : ℚ) /
      (Nat.pow 10 (-decimal.exponent).toNat : Nat) = Double.number magnitude := by
    have parts : decimal.exponent =
        (decimal.exponent.toNat : Int) - ((-decimal.exponent).toNat : Int) := by omega
    have power := zpow_sub₀ (by norm_num : (10 : ℚ) ≠ 0) decimal.exponent.toNat
      (-decimal.exponent).toNat
    rw [← parts, zpow_natCast, zpow_natCast] at power
    rw [← exact, number, power, mul_div_assoc']
    norm_num
  rw [nearestMagnitude, if_neg (by omega), if_neg (by omega)]
  exact Double.nearestMagnitude_of_number positive finite (Nat.pow_pos (by decide)) quotient

/-- All digits of a finite magnitude stand for exactly its number. -/
theorem number_exact (magnitude : Nat) : (exact magnitude).number = Double.number magnitude := by
  rw [exact, number_normal, Double.number, Nat.shiftLeft_eq]
  rcases Int.le_total 0 (Double.weight magnitude) with whole | fractional
  · obtain ⟨count, weight⟩ := Int.eq_ofNat_of_zero_le whole
    have none : (-(count : Int)).toNat = 0 := by omega
    have unit : min (count : Int) 0 = 0 := by omega
    rw [weight, none, unit]
    simp
  · obtain ⟨count, weight⟩ := Int.eq_ofNat_of_zero_le (Int.neg_nonneg_of_nonpos fractional)
    have opposite : Double.weight magnitude = -(count : Int) := by omega
    have none : (-(count : Int)).toNat = 0 := by omega
    have unit : min (-(count : Int)) 0 = -(count : Int) := by omega
    rw [opposite, none, unit, Int.neg_neg, Int.toNat_natCast, zpow_neg, zpow_neg, zpow_natCast,
      zpow_natCast]
    have ten : (10 : ℚ) ^ count = 2 ^ count * 5 ^ count := by rw [← mul_pow]; norm_num
    rw [Nat.pow_eq, Nat.cast_mul, Nat.cast_pow, ten]
    push_cast
    field_simp

/-- A decimal found in some unit was tried, and is in its greatest unit. -/
theorem inUnit?_eq_some {magnitude : Nat} {exponent : Int} {decimal : Decimal}
    (found : inUnit? magnitude exponent = some decimal) :
    decimal.nearestMagnitude = magnitude ∧ ∃ units unit, decimal = normal units unit := by
  unfold inUnit? at found
  simp only at found
  split at found
  next lowerReads upperReads =>
    obtain rfl := Option.some.inj found
    split
    · exact ⟨beq_iff_eq.mp lowerReads, _, _, rfl⟩
    · exact ⟨beq_iff_eq.mp upperReads, _, _, rfl⟩
  next reads _ =>
    obtain rfl := Option.some.inj found
    exact ⟨beq_iff_eq.mp reads, _, _, rfl⟩
  next _ reads =>
    obtain rfl := Option.some.inj found
    exact ⟨beq_iff_eq.mp reads, _, _, rfl⟩
  next => contradiction

/-- The shortest decimal of a finite magnitude other than zero is rounded to the magnitude, and its
last digit is not zero. -/
theorem shortest_reads {magnitude : Nat} (positive : 0 < magnitude)
    (finite : magnitude < Double.infiniteMagnitude) :
    (shortest magnitude).nearestMagnitude = magnitude ∧ (shortest magnitude).units % 10 ≠ 0 := by
  have chosen : (shortest magnitude).nearestMagnitude = magnitude ∧
      ∃ units unit, shortest magnitude = normal units unit := by
    unfold shortest
    simp only
    cases search : (List.range 17).findSome? fun (digits : Nat) => inUnit? magnitude
        (point (Double.ratio magnitude).1 (Double.ratio magnitude).2 - (digits + 1)) with
    | none =>
      exact ⟨nearestMagnitude_of_number positive finite (number_exact magnitude), _, _, rfl⟩
    | some decimal =>
      obtain ⟨digits, _, found⟩ := List.exists_of_findSome?_eq_some search
      exact inUnit?_eq_some found
  obtain ⟨reads, units, unit, normalized⟩ := chosen
  refine ⟨reads, ?_⟩
  rw [normalized]
  apply units_normal_mod
  intro zero
  rw [normalized, zero, normal, if_pos rfl] at reads
  simp [nearestMagnitude] at reads
  omega

end ContentSpace.Decimal
