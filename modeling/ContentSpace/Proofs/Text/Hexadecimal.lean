import ContentSpace.Text.Hexadecimal
import Mathlib.Algebra.Ring.Nat
import Mathlib.Data.List.Basic

/-!
# Hexadecimal digits determine numbers

At a fixed width the digits of a number determine it, and every digit is one of sixteen characters
among which there is no colon.
-/

namespace ContentSpace.Text

/-- Different numbers below sixteen have different digits. -/
theorem hexDigit_inj {m n : Nat} (smallLeft : m < 16) (smallRight : n < 16)
    (same : hexDigit m = hexDigit n) : m = n := by
  have all : ∀ m < 16, ∀ n < 16, hexDigit m = hexDigit n → m = n := by decide
  exact all m smallLeft n smallRight same

/-- No digit is a colon. -/
theorem hexDigit_ne_colon {n : Nat} (small : n < 16) : hexDigit n ≠ ':' := by
  have all : ∀ n < 16, hexDigit n ≠ ':' := by decide
  exact all n small

/-- Text at a fixed width holds no colon. -/
theorem colon_not_mem_hexFixed (width n : Nat) : ':' ∉ hexFixed width n := by
  induction width generalizing n with
  | zero => simp [hexFixed]
  | succ width ih =>
    rw [hexFixed, List.mem_append, List.mem_singleton, not_or]
    exact ⟨ih (n / 16), (hexDigit_ne_colon (Nat.mod_lt n (by decide))).symm⟩

/-- Numbers that fit into a width are equal when their digits at that width are. -/
theorem hexFixed_inj {width m n : Nat} (fitsLeft : m < 16 ^ width) (fitsRight : n < 16 ^ width)
    (same : hexFixed width m = hexFixed width n) : m = n := by
  induction width generalizing m n with
  | zero =>
    rw [Nat.pow_zero] at fitsLeft fitsRight
    omega
  | succ width ih =>
    rw [Nat.pow_succ] at fitsLeft fitsRight
    rw [hexFixed, hexFixed] at same
    obtain ⟨front, last⟩ := List.append_inj same (by simp)
    have high : m / 16 = n / 16 := ih (by omega) (by omega) front
    have low : m % 16 = n % 16 :=
      hexDigit_inj (Nat.mod_lt m (by decide)) (Nat.mod_lt n (by decide)) (List.cons.inj last).1
    omega

end ContentSpace.Text
