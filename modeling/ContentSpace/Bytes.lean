/-!
# Numbers in bytes

Numbers are stored with their most significant byte first, in a width that is known from outside.
-/

namespace ContentSpace.Bytes

/-- The bytes of a number in a fixed width; what does not fit is left out at the front. -/
def bigEndian : (width : Nat) → (n : Nat) → List UInt8
  | 0, _ => []
  | width + 1, n => bigEndian width (n / 256) ++ [UInt8.ofNat (n % 256)]

/-- The number that bytes stand for. -/
def value (bytes : List UInt8) : Nat :=
  bytes.foldl (fun total byte => 256 * total + byte.toNat) 0

/-- The number of bytes is the width asked for. -/
@[simp] theorem length_bigEndian (width n : Nat) : (bigEndian width n).length = width := by
  induction width generalizing n with
  | zero => rfl
  | succ width ih => simp [bigEndian, ih]

/-- Bytes stand for the number they were made from, as far as it fits. -/
theorem value_bigEndian (width n : Nat) : value (bigEndian width n) = n % Nat.pow 256 width := by
  induction width generalizing n with
  | zero => simp [bigEndian, value, Nat.mod_one]
  | succ width ih =>
    have step : value (bigEndian (width + 1) n) = 256 * value (bigEndian width (n / 256)) +
        (UInt8.ofNat (n % 256)).toNat := by simp [value, bigEndian]
    rw [step, ih, show Nat.pow 256 (width + 1) = 256 * Nat.pow 256 width from Nat.mul_comm _ _]
    have small : (UInt8.ofNat (n % 256)).toNat = n % 256 := by simp
    rw [small, Nat.mod_mul]
    omega

/-- The first bytes, as many as asked for, and the bytes after them. -/
def split? (count : Nat) (bytes : List UInt8) : Option (List UInt8 × List UInt8) :=
  if count ≤ bytes.length then some (bytes.take count, bytes.drop count) else none

/-- The number in the first bytes, and the bytes after them. -/
def number? (width : Nat) (bytes : List UInt8) : Option (Nat × List UInt8) :=
  (split? width bytes).map fun (front, rest) => (value front, rest)

end ContentSpace.Bytes
