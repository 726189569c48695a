/-!
# Decimal numerals

Natural numbers and integers as decimal digits, and digits back as numbers. A numeral that is
written has no leading zeros; one that is read may have them.
-/

namespace ContentSpace.Numeral

/-- The digit of a number below ten. -/
def digit (n : Nat) : Char := Char.ofNat (48 + n)

/-- The number a decimal digit stands for. -/
def digitValue (c : Char) : Nat := c.toNat - 48

/-- The decimal digits of a number, most significant first. -/
def digits (n : Nat) : List Char :=
  if n < 10 then [digit n] else digits (n / 10) ++ [digit (n % 10)]

/-- The number that a run of digits writes. -/
def value (text : List Char) : Nat :=
  text.foldl (fun total c => 10 * total + digitValue c) 0

/-- The decimal text of an integer, with a sign when it is negative. -/
def ofInt (n : Int) : List Char :=
  if n < 0 then '-' :: digits n.natAbs else digits n.natAbs

/-- Whether every character is a decimal digit and there is at least one. -/
def isNumeral (text : List Char) : Bool :=
  !text.isEmpty && text.all Char.isDigit

/-- A numeral of one digit is that digit. -/
theorem digits_of_lt {n : Nat} (h : n < 10) : digits n = [digit n] := by
  rw [digits, if_pos h]

/-- A longer numeral ends in the last digit. -/
theorem digits_of_le {n : Nat} (h : 10 ≤ n) : digits n = digits (n / 10) ++ [digit (n % 10)] := by
  rw [digits, if_neg (by omega)]

/-- Appending a digit to a numeral multiplies its number by ten and adds the digit. -/
@[simp] theorem value_append_digit (text : List Char) (c : Char) :
    value (text ++ [c]) = 10 * value text + digitValue c := by
  simp [value]

/-- A digit stands for the number it was written for. -/
theorem digitValue_digit {n : Nat} (h : n < 10) : digitValue (digit n) = n := by
  have all : ∀ n < 10, digitValue (digit n) = n := by decide
  exact all n h

/-- Reading the digits of a number gives the number. -/
theorem value_digits (n : Nat) : value (digits n) = n := by
  induction n using Nat.strongRecOn with
  | _ n ih =>
    by_cases small : n < 10
    · simp [digits_of_lt small, value, digitValue_digit small]
    · rw [digits_of_le (by omega), value_append_digit, ih _ (by omega),
        digitValue_digit (Nat.mod_lt _ (by decide))]
      omega

end ContentSpace.Numeral
