import ContentSpace.Number.Numeral
import Mathlib.Algebra.Ring.Nat
import Mathlib.Data.List.Basic
import Mathlib.Data.List.Induction

/-!
# Laws of decimal numerals

A natural number has exactly one numeral without leading zeros: `digits` writes it, and every run
of digits that starts with another digit than zero, or is zero alone, is what `digits` writes for
its value. The length of a numeral bounds its number by powers of ten, and a numeral that ends in
another one has a numeral in front of it.
-/

namespace ContentSpace.Numeral

/-- The digit of a number below ten is a decimal digit. -/
theorem isDigit_digit {n : Nat} (small : n < 10) : (digit n).isDigit = true := by
  have all : ∀ n < 10, (digit n).isDigit = true := by decide
  exact all n small

/-- A decimal digit is one of ten characters in a row. -/
theorem toNat_of_isDigit {c : Char} (digital : c.isDigit = true) :
    48 ≤ c.toNat ∧ c.toNat ≤ 57 := by
  simp only [Char.isDigit, Bool.and_eq_true, decide_eq_true_eq] at digital
  exact ⟨UInt32.le_iff_toNat_le.mp digital.1, UInt32.le_iff_toNat_le.mp digital.2⟩

/-- A decimal digit stands for a number below ten. -/
theorem digitValue_lt {c : Char} (digital : c.isDigit = true) : digitValue c < 10 := by
  have bounds := toNat_of_isDigit digital
  unfold digitValue
  omega

/-- A decimal digit is the digit of the number it stands for. -/
theorem digit_digitValue {c : Char} (digital : c.isDigit = true) : digit (digitValue c) = c := by
  have bounds := toNat_of_isDigit digital
  have back : 48 + (c.toNat - 48) = c.toNat := by omega
  rw [digit, digitValue, back, Char.ofNat_toNat]

/-- A numeral has at least one digit. -/
theorem digits_ne_nil (n : Nat) : digits n ≠ [] := by
  rw [digits]
  split <;> simp

/-- A numeral consists of decimal digits. -/
theorem isDigit_of_mem_digits {n : Nat} {c : Char} (member : c ∈ digits n) :
    c.isDigit = true := by
  induction n using Nat.strongRecOn with
  | _ n ih =>
    by_cases small : n < 10
    · rw [digits_of_lt small, List.mem_singleton] at member
      rw [member]
      exact isDigit_digit small
    · rw [digits_of_le (by omega), List.mem_append, List.mem_singleton] at member
      rcases member with front | last
      · exact ih (n / 10) (by omega) front
      · rw [last]
        exact isDigit_digit (Nat.mod_lt _ (by decide))

/-- A numeral consists of digits, and there is at least one. -/
theorem isNumeral_iff {text : List Char} :
    isNumeral text = true ↔ text ≠ [] ∧ ∀ c ∈ text, c.isDigit = true := by
  simp [isNumeral]

/-- What is written for a number is a numeral. -/
theorem isNumeral_digits (n : Nat) : isNumeral (digits n) = true :=
  isNumeral_iff.mpr ⟨digits_ne_nil n, fun _ member => isDigit_of_mem_digits member⟩

/-- The numeral of a number other than zero starts with another digit than zero. -/
theorem head?_digits_ne {n : Nat} (positive : 0 < n) : (digits n).head? ≠ some '0' := by
  induction n using Nat.strongRecOn with
  | _ n ih =>
    by_cases small : n < 10
    · rw [digits_of_lt small]
      intro zero
      have same : digitValue (digit n) = digitValue '0' := by
        rw [Option.some.inj zero]
      rw [digitValue_digit small] at same
      exact absurd same (by simp [digitValue]; omega)
    · rw [digits_of_le (by omega), List.head?_append_of_ne_nil _ (digits_ne_nil _)]
      exact ih (n / 10) (by omega) (by omega)

/-- A numeral of at least two digits starts with another digit than zero. -/
theorem head?_digits (n : Nat) : digits n = ['0'] ∨ (digits n).head? ≠ some '0' := by
  rcases Nat.eq_zero_or_pos n with zero | positive
  · left
    rw [zero, digits_of_lt (by decide)]
    rfl
  · exact .inr (head?_digits_ne positive)

/-- A run of digits that starts with another digit than zero stands for a number other than
zero. -/
theorem value_pos {text : List Char} (digital : ∀ c ∈ text, c.isDigit = true)
    (nonempty : text ≠ []) (leading : text.head? ≠ some '0') : 0 < value text := by
  induction text using List.reverseRecOn with
  | nil => exact absurd rfl nonempty
  | append_singleton front last ih =>
    rw [value_append_digit]
    by_cases single : front = []
    · subst single
      have nonzero : digitValue last ≠ 0 := by
        intro zero
        have same := digit_digitValue (digital last (by simp))
        rw [zero] at same
        exact leading (by rw [← same]; rfl)
      omega
    · rw [List.head?_append_of_ne_nil _ single] at leading
      have positive := ih (fun c member => digital c (by simp [member])) single leading
      omega

/-- A run of digits without needless zeros is the numeral of its value. -/
theorem digits_value {text : List Char} (digital : ∀ c ∈ text, c.isDigit = true)
    (nonempty : text ≠ []) (leading : text = ['0'] ∨ text.head? ≠ some '0') :
    digits (value text) = text := by
  induction text using List.reverseRecOn with
  | nil => exact absurd rfl nonempty
  | append_singleton front last ih =>
    have lastDigital := digital last (by simp)
    have frontDigital : ∀ c ∈ front, c.isDigit = true :=
      fun c member => digital c (by simp [member])
    have lastValue := digitValue_lt lastDigital
    rw [value_append_digit]
    by_cases single : front = []
    · subst single
      simp only [value, List.foldl_nil, Nat.mul_zero, Nat.zero_add, List.nil_append]
      rw [digits_of_lt lastValue, digit_digitValue lastDigital]
    · have frontLeading : front.head? ≠ some '0' := by
        rcases leading with zero | other
        · cases front with
          | nil => exact absurd rfl single
          | cons c rest => simp at zero
        · rwa [List.head?_append_of_ne_nil _ single] at other
      have positive := value_pos frontDigital single frontLeading
      have quotient : (10 * value front + digitValue last) / 10 = value front := by omega
      have remainder : (10 * value front + digitValue last) % 10 = digitValue last := by omega
      rw [digits_of_le (by omega), quotient, remainder, digit_digitValue lastDigital,
        ih frontDigital single (.inr frontLeading)]

/-- The first digits of a run count by the power of ten that the run has digits after them. -/
theorem value_append (front back : List Char) :
    value (front ++ back) = value front * 10 ^ back.length + value back := by
  induction back using List.reverseRecOn with
  | nil => simp [value]
  | append_singleton back last ih =>
    rw [← List.append_assoc, value_append_digit, ih, value_append_digit, List.length_append,
      List.length_singleton, Nat.pow_succ, ← Nat.mul_assoc]
    omega

/-- Zeros stand for zero. -/
theorem value_zeros (count : Nat) : value (List.replicate count '0') = 0 := by
  induction count with
  | zero => rfl
  | succ count ih => simp [List.replicate_succ', ih, digitValue]

/-- Zeros after a run of digits multiply its number by powers of ten. -/
theorem value_append_zeros (text : List Char) (count : Nat) :
    value (text ++ List.replicate count '0') = value text * 10 ^ count := by
  rw [value_append, value_zeros, List.length_replicate, Nat.add_zero]

/-- Zeros before a run of digits leave its number as it is. -/
theorem value_zeros_append (count : Nat) (text : List Char) :
    value (List.replicate count '0' ++ text) = value text := by
  rw [value_append, value_zeros, Nat.zero_mul, Nat.zero_add]

/-- Equal numerals write equal numbers. -/
theorem digits_inj {n m : Nat} : digits n = digits m ↔ n = m := by
  refine ⟨fun same => ?_, congrArg digits⟩
  rw [← value_digits n, same, value_digits]

/-- A numeral in front of another one is the first part of a longer numeral. -/
theorem digits_append_digits {high : Nat} (positive : 0 < high) (low : Nat) :
    digits high ++ digits low = digits (high * 10 ^ (digits low).length + low) := by
  have digital : ∀ c ∈ digits high ++ digits low, c.isDigit = true := fun c member =>
    (List.mem_append.mp member).elim isDigit_of_mem_digits isDigit_of_mem_digits
  have leading : (digits high ++ digits low).head? ≠ some '0' := by
    rw [List.head?_append_of_ne_nil _ (digits_ne_nil high)]
    exact head?_digits_ne positive
  have whole := digits_value digital (by simp [digits_ne_nil]) (.inr leading)
  rw [← whole, value_append, value_digits, value_digits]

/-- What stands in a numeral before the numeral of a smaller number is itself a numeral. -/
theorem append_digits_eq_digits_iff {front : List Char} {low n : Nat} (smaller : low < n) :
    front ++ digits low = digits n ↔
      ∃ high, 0 < high ∧ front = digits high ∧ n = high * 10 ^ (digits low).length + low := by
  constructor
  · intro whole
    have nonempty : front ≠ [] := by
      rintro rfl
      exact absurd (digits_inj.mp whole) (Nat.ne_of_lt smaller)
    have digital : ∀ c ∈ front, c.isDigit = true := fun c member =>
      isDigit_of_mem_digits (n := n) (whole ▸ List.mem_append_left _ member)
    have leading : front.head? ≠ some '0' := by
      rw [← List.head?_append_of_ne_nil front nonempty, whole]
      exact head?_digits_ne (Nat.zero_lt_of_lt smaller)
    refine ⟨value front, value_pos digital nonempty leading,
      (digits_value digital nonempty (.inr leading)).symm, ?_⟩
    rw [← value_digits n, ← whole, value_append, value_digits]
  · rintro ⟨high, positive, rfl, rfl⟩
    exact digits_append_digits positive low

/-- A number is below the power of ten that its numeral has digits. -/
theorem lt_pow_length_digits (n : Nat) : n < 10 ^ (digits n).length := by
  induction n using Nat.strongRecOn with
  | _ n ih =>
    by_cases small : n < 10
    · simpa [digits_of_lt small] using small
    · have front := ih (n / 10) (by omega)
      rw [digits_of_le (by omega), List.length_append, List.length_singleton, Nat.pow_succ]
      omega

/-- A number other than zero reaches the power of ten below its numeral. -/
theorem pow_length_digits_le {n : Nat} (positive : 0 < n) :
    10 ^ ((digits n).length - 1) ≤ n := by
  induction n using Nat.strongRecOn with
  | _ n ih =>
    by_cases small : n < 10
    · simpa [digits_of_lt small] using Nat.succ_le_of_lt positive
    · have front := ih (n / 10) (by omega) (by omega)
      have count : 0 < (digits (n / 10)).length := List.length_pos_iff.mpr (digits_ne_nil _)
      have length : (digits (n / 10)).length + 1 - 1 = (digits (n / 10)).length - 1 + 1 := by omega
      rw [digits_of_le (by omega), List.length_append, List.length_singleton, length,
        Nat.pow_succ]
      omega

end ContentSpace.Numeral
