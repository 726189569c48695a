import ContentSpace.MessagePack.Reader

/-!
# Heads of items are read back

A head is read back in each of the forms in which it is written: the number may stand in the marker
or follow it in one, two, four or eight bytes. Numbers of items and of bytes are written in at most
four bytes, and what does not fit there is lost.
-/

namespace ContentSpace

namespace Bytes

/-- A number is read back from its bytes as far as it fits. -/
theorem number?_bigEndian (width n : Nat) (rest : List UInt8) :
    number? width (bigEndian width n ++ rest) = some (n % Nat.pow 256 width, rest) := by
  have enough : width ≤ (bigEndian width n ++ rest).length := by simp
  have front : (bigEndian width n ++ rest).take width = bigEndian width n :=
    List.take_left' (length_bigEndian width n)
  have after : (bigEndian width n ++ rest).drop width = rest :=
    List.drop_left' (length_bigEndian width n)
  rw [number?, split?, if_pos enough, front, after, Option.map_some]
  exact congrArg (fun number => some (number, rest)) (value_bigEndian width n)

end Bytes

namespace MessagePack

/-! ## Numbers after a marker -/

/-- A number that fits into its width is read back into a head. -/
theorem withNumber_bigEndian (width : Nat) (head : Nat → Head) {n : Nat}
    (fits : n < Nat.pow 256 width) (rest : List UInt8) :
    withNumber width head (Bytes.bigEndian width n ++ rest) = some (head n, rest) := by
  rw [withNumber, Bytes.number?_bigEndian, Nat.mod_eq_of_lt fits, Option.map_some]

/-- A negative number is read back from its remainder when it fits into the width. -/
theorem signedValue_toNat (width : Nat) {n : Int} (negative : n < 0)
    (fits : -(Nat.pow 256 width : Int) ≤ 2 * n) :
    signedValue width (n + Nat.pow 256 width).toNat = n := by
  rw [signedValue]
  generalize Nat.pow 256 width = size at fits ⊢
  -- negative numbers take the upper half of what the width can hold
  have large : ¬ 2 * (n + size).toNat < size := by omega
  rw [if_neg large]
  omega

/-- A negative number is read back into a head when it fits into the width. -/
theorem withNumber_remainder (width : Nat) {n : Int} (negative : n < 0)
    (fits : -(Nat.pow 256 width : Int) ≤ 2 * n) (rest : List UInt8) :
    withNumber width (fun n => .signed (signedValue width n))
      (Bytes.bigEndian width (n + Nat.pow 256 width).toNat ++ rest) = some (.signed n, rest) := by
  have small : (n + Nat.pow 256 width).toNat < Nat.pow 256 width := by
    generalize Nat.pow 256 width = size at fits ⊢
    omega
  rw [withNumber_bigEndian width _ small, signedValue_toNat width negative fits]

/-! ## Forms of heads -/

/-- The byte of a small number stands for it. -/
theorem toNat_ofNat_of_lt {n : Nat} (small : n < 0x100) : (UInt8.ofNat n).toNat = n := by
  rw [UInt8.toNat_ofNat']
  exact Nat.mod_eq_of_lt small

/-- The head of a natural number of 64 bits is read back. -/
theorem reads_writeInt_natCast {n : Nat} (high : n < 0x10000000000000000) :
    Reads readHead (writeInt n) (.unsigned n) := by
  intro rest
  rw [writeInt, if_pos (Int.natCast_nonneg n), Int.toNat_natCast]
  dsimp only
  by_cases inMarker : n < 0x80
  · have marker : (UInt8.ofNat n).toNat = n := toNat_ofNat_of_lt (by omega)
    rw [if_pos inMarker]
    simp [readHead, marker, inMarker]
  · rw [if_neg inMarker]
    split
    next one => exact withNumber_bigEndian 1 .unsigned one rest
    next =>
      split
      next two => exact withNumber_bigEndian 2 .unsigned two rest
      next =>
        split
        next four => exact withNumber_bigEndian 4 .unsigned four rest
        next => exact withNumber_bigEndian 8 .unsigned high rest

/-- The head of a negative number of 64 bits is read back. -/
theorem reads_writeInt_of_neg {n : Int} (negative : n < 0) (low : -0x8000000000000000 ≤ n) :
    Reads readHead (writeInt n) (.signed n) := by
  intro rest
  rw [writeInt, if_neg (by omega)]
  by_cases inMarker : -0x20 ≤ n
  · have marker : (UInt8.ofNat (n + 0x100).toNat).toNat = (n + 0x100).toNat :=
      toNat_ofNat_of_lt (by omega)
    rw [if_pos inMarker, List.cons_append, List.nil_append, readHead, marker]
    dsimp only
    rw [if_neg (by omega), if_neg (by omega), if_neg (by omega), if_neg (by omega),
      if_pos (by omega)]
    have value : ((n + 0x100).toNat : Int) - 0x100 = n := by omega
    rw [value]
  · rw [if_neg inMarker]
    split
    next one => exact withNumber_remainder 1 negative (show -(0x100 : Int) ≤ 2 * n by omega) rest
    next =>
      split
      next two =>
        exact withNumber_remainder 2 negative (show -(0x10000 : Int) ≤ 2 * n by omega) rest
      next =>
        split
        next four =>
          exact withNumber_remainder 4 negative (show -(0x100000000 : Int) ≤ 2 * n by omega) rest
        next =>
          exact withNumber_remainder 8 negative
            (show -(0x10000000000000000 : Int) ≤ 2 * n by omega) rest

/-- The head of a double is read back. -/
theorem reads_writeDouble (x : Double) : Reads readHead (writeDouble x) (.double x.bits) := by
  intro rest
  have fits : x.bits.toNat < Nat.pow 256 8 := x.bits.toNat_lt
  have read := withNumber_bigEndian 8 (fun n => .double (UInt64.ofNat n)) fits rest
  rw [UInt64.ofNat_toNat] at read
  exact read

/-- The head of a truth value is read back. -/
theorem reads_writeBool (b : Bool) : Reads readHead (writeBool b) (.bool b) := by
  intro rest
  cases b <;> rfl

/-! ## Counts -/

/-- A count in the marker, in two bytes or in four bytes is read back into the head that the three
markers are for, with what is left of it in four bytes. -/
theorem readHead_count (first : Nat) {head : Nat → Head} {two four : UInt8} {count : Nat}
    {rest : List UInt8}
    (inMarker : count < 0x10 → readHead (UInt8.ofNat (first + count) :: rest) =
      some (head count, rest))
    (inTwo : ∀ bytes, readHead (two :: bytes) = withNumber 2 head bytes)
    (inFour : ∀ bytes, readHead (four :: bytes) = withNumber 4 head bytes) :
    readHead ((if count < 0x10 then [UInt8.ofNat (first + count)]
      else if count < 0x10000 then marked two 2 count
      else marked four 4 count) ++ rest) = some (head (count % 0x100000000), rest) := by
  split
  next small =>
    rw [Nat.mod_eq_of_lt (by omega)]
    exact inMarker small
  next =>
    split
    next fits =>
      rw [Nat.mod_eq_of_lt (by omega), marked, List.cons_append, inTwo]
      exact withNumber_bigEndian 2 head fits rest
    next =>
      rw [marked, List.cons_append, inFour, withNumber, Bytes.number?_bigEndian]
      rfl

/-- The head of an array is read back with what is left of its count in four bytes. -/
theorem reads_writeArrayHead (count : Nat) :
    Reads readHead (writeArrayHead count) (.array (count % 0x100000000)) := by
  intro rest
  apply readHead_count 0x90 _ (fun _ => rfl) (fun _ => rfl)
  intro small
  rw [readHead, toNat_ofNat_of_lt (by omega)]
  dsimp only
  rw [if_neg (by omega), if_neg (by omega), if_pos (by omega), Nat.add_sub_cancel_left]

/-- The head of a map is read back with what is left of its count in four bytes. -/
theorem reads_writeMapHead (count : Nat) :
    Reads readHead (writeMapHead count) (.map (count % 0x100000000)) := by
  intro rest
  apply readHead_count 0x80 _ (fun _ => rfl) (fun _ => rfl)
  intro small
  rw [readHead, toNat_ofNat_of_lt (by omega)]
  dsimp only
  rw [if_neg (by omega), if_pos (by omega), Nat.add_sub_cancel_left]

/-! ## Texts -/

/-- As many bytes as a number says are read into a head, as far as the number fits and there are so
many. -/
theorem withBytes_bigEndian (width : Nat) {n : Nat} (head : List UInt8 → Head) {bytes : List UInt8}
    (enough : n % Nat.pow 256 width ≤ bytes.length) :
    withBytes width head (Bytes.bigEndian width n ++ bytes) =
      some (head (bytes.take (n % Nat.pow 256 width)), bytes.drop (n % Nat.pow 256 width)) := by
  rw [withBytes, Bytes.number?_bigEndian]
  simp only [bind, Option.bind, Bytes.split?, if_pos enough]

/-- Of the bytes of a text as many are read back as is left of their number in four bytes. -/
theorem readHead_writeText {text : String} {bytes : List UInt8}
    (spelled : Text.utf8 text.toList = bytes) (rest : List UInt8) :
    let count := bytes.length % 0x100000000
    readHead (writeText text ++ rest) =
      some (.text ((bytes ++ rest).take count), (bytes ++ rest).drop count) := by
  intro count
  have enough : count ≤ (bytes ++ rest).length := by
    rw [List.length_append]
    exact Nat.le_trans (Nat.mod_le ..) (Nat.le_add_right ..)
  have whole {size : Nat} (below : size ≤ 0x100000000) (fits : bytes.length < size) :
      count = bytes.length % size := by
    rw [Nat.mod_eq_of_lt fits]
    exact Nat.mod_eq_of_lt (Nat.lt_of_lt_of_le fits below)
  rw [writeText, spelled, List.append_assoc]
  split
  next inMarker =>
    have all : count = bytes.length := Nat.mod_eq_of_lt (by omega)
    rw [List.cons_append, List.nil_append, readHead, toNat_ofNat_of_lt (by omega)]
    dsimp only
    rw [if_neg (by omega), if_neg (by omega), if_neg (by omega), if_pos (by omega),
      Nat.add_sub_cancel_left, Bytes.split?, ← all, if_pos enough]
    rfl
  next =>
    split
    next one =>
      rw [whole (show Nat.pow 256 1 ≤ 0x100000000 by decide) one] at enough ⊢
      exact withBytes_bigEndian 1 .text enough
    next =>
      split
      next two =>
        rw [whole (show Nat.pow 256 2 ≤ 0x100000000 by decide) two] at enough ⊢
        exact withBytes_bigEndian 2 .text enough
      next => exact withBytes_bigEndian 4 .text enough

/-- A text is short enough for its bytes to be counted in four bytes. -/
def ShortText (text : String) : Prop := (Text.utf8 text.toList).length < 0x100000000

instance : DecidablePred ShortText := fun text =>
  inferInstanceAs (Decidable ((Text.utf8 text.toList).length < 0x100000000))

/-- The head of a short text is read back. -/
theorem reads_head_writeText {text : String} (short : ShortText text) :
    Reads readHead (writeText text) (.text (Text.utf8 text.toList)) := by
  intro rest
  rw [readHead_writeText rfl, Nat.mod_eq_of_lt short, List.take_left, List.drop_left]

/-! ## Nothing -/

/-- Nothing is read from its own marker only. -/
theorem eq_of_readHead_nothing {bytes after : List UInt8}
    (starts : readHead bytes = some (.nothing, after)) : bytes = writeNothing ++ after := by
  cases bytes with
  | nil => cases starts
  | cons marker rest =>
    simp only [readHead] at starts
    -- the markers that hold a number, and then the others, one by one
    iterate 5
      split at starts
      next => simp at starts
    split at starts
    case h_1 same =>
      have first : marker = 0xc0 := UInt8.toNat_inj.mp same
      cases starts
      rw [first]
      rfl
    all_goals simp [withNumber, withBytes, Option.bind_eq_some_iff] at starts

end MessagePack

end ContentSpace
