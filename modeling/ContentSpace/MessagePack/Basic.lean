import ContentSpace.Bytes
import ContentSpace.Number.Double
import ContentSpace.Text.Extent

/-!
# Items of MessagePack

MessagePack writes data as items. Each item starts with a head: a marker byte with the number or
the length that belongs to it. Texts and binary strings carry their bytes in the head; the items of
an array and the pairs of a map follow it. Writing chooses the shortest head, reading takes any.
-/

namespace ContentSpace.MessagePack

/-- The head of an item. -/
inductive Head where
  /-- Nothing. -/
  | nothing
  /-- A truth value. -/
  | bool (b : Bool)
  /-- A number under a marker for unsigned ones. -/
  | unsigned (n : Nat)
  /-- A number under a marker for signed ones. -/
  | signed (n : Int)
  /-- A single-precision number. -/
  | single (bits : UInt32)
  /-- A double-precision number. -/
  | double (bits : UInt64)
  /-- The bytes of a text. -/
  | text (bytes : List UInt8)
  /-- A binary string. -/
  | binary (bytes : List UInt8)
  /-- An array of so many items, which follow. -/
  | array (count : Nat)
  /-- A map of so many pairs, which follow. -/
  | map (count : Nat)
  /-- An extension of so many bytes; a type byte and the bytes follow. -/
  | extension (length : Nat)
  deriving DecidableEq

/-- A marker followed by a number in a fixed width. -/
def marked (marker : UInt8) (width n : Nat) : List UInt8 := marker :: Bytes.bigEndian width n

/-- The item for nothing. -/
def writeNothing : List UInt8 := [0xc0]

/-- The item of a truth value. -/
def writeBool (b : Bool) : List UInt8 := [if b then 0xc3 else 0xc2]

/-- The shortest item of an integer of 64 bits. -/
def writeInt (n : Int) : List UInt8 :=
  if 0 ≤ n then
    let n := n.toNat
    if n < 0x80 then [UInt8.ofNat n]
    else if n < 0x100 then marked 0xcc 1 n
    else if n < 0x10000 then marked 0xcd 2 n
    else if n < 0x100000000 then marked 0xce 4 n
    else marked 0xcf 8 n
  else if -0x20 ≤ n then [UInt8.ofNat (n + 0x100).toNat]
  else if -0x80 ≤ n then marked 0xd0 1 (n + 0x100).toNat
  else if -0x8000 ≤ n then marked 0xd1 2 (n + 0x10000).toNat
  else if -0x80000000 ≤ n then marked 0xd2 4 (n + 0x100000000).toNat
  else marked 0xd3 8 (n + 0x10000000000000000).toNat

/-- The item of a double. -/
def writeDouble (x : Double) : List UInt8 := marked 0xcb 8 x.bits.toNat

/-- The shortest item of a text. -/
def writeText (text : String) : List UInt8 :=
  let bytes := Text.utf8 text.toList
  let length := bytes.length
  (if length < 0x20 then [UInt8.ofNat (0xa0 + length)]
  else if length < 0x100 then marked 0xd9 1 length
  else if length < 0x10000 then marked 0xda 2 length
  else marked 0xdb 4 length) ++ bytes

/-- The shortest head of an array. -/
def writeArrayHead (count : Nat) : List UInt8 :=
  if count < 0x10 then [UInt8.ofNat (0x90 + count)]
  else if count < 0x10000 then marked 0xdc 2 count
  else marked 0xdd 4 count

/-- The shortest head of a map. -/
def writeMapHead (count : Nat) : List UInt8 :=
  if count < 0x10 then [UInt8.ofNat (0x80 + count)]
  else if count < 0x10000 then marked 0xde 2 count
  else marked 0xdf 4 count

/-- The number that a word of the given width stands for when its first bit is a sign. -/
def signedValue (width n : Nat) : Int :=
  if 2 * n < Nat.pow 256 width then n else (n : Int) - Nat.pow 256 width

/-- Reads a number in a fixed width into a head. -/
def withNumber (width : Nat) (head : Nat → Head) (bytes : List UInt8) :
    Option (Head × List UInt8) :=
  (Bytes.number? width bytes).map fun (n, rest) => (head n, rest)

/-- Reads as many bytes as a number in a fixed width says into a head. -/
def withBytes (width : Nat) (head : List UInt8 → Head) (bytes : List UInt8) :
    Option (Head × List UInt8) := do
  let (length, rest) ← Bytes.number? width bytes
  let (content, rest) ← Bytes.split? length rest
  some (head content, rest)

/-- The head at the front of bytes and the bytes after it. One marker is reserved and starts no
item. -/
def readHead : List UInt8 → Option (Head × List UInt8)
  | [] => none
  | marker :: rest =>
    let m := marker.toNat
    if m < 0x80 then some (.unsigned m, rest)
    else if m < 0x90 then some (.map (m - 0x80), rest)
    else if m < 0xa0 then some (.array (m - 0x90), rest)
    else if m < 0xc0 then
      (Bytes.split? (m - 0xa0) rest).map fun (content, rest) => (.text content, rest)
    else if 0xe0 ≤ m then some (.signed (m - 0x100), rest)
    else match m with
      | 0xc0 => some (.nothing, rest)
      | 0xc2 => some (.bool false, rest)
      | 0xc3 => some (.bool true, rest)
      | 0xc4 => withBytes 1 .binary rest
      | 0xc5 => withBytes 2 .binary rest
      | 0xc6 => withBytes 4 .binary rest
      | 0xc7 => withNumber 1 .extension rest
      | 0xc8 => withNumber 2 .extension rest
      | 0xc9 => withNumber 4 .extension rest
      | 0xca => withNumber 4 (fun n => .single (UInt32.ofNat n)) rest
      | 0xcb => withNumber 8 (fun n => .double (UInt64.ofNat n)) rest
      | 0xcc => withNumber 1 .unsigned rest
      | 0xcd => withNumber 2 .unsigned rest
      | 0xce => withNumber 4 .unsigned rest
      | 0xcf => withNumber 8 .unsigned rest
      | 0xd0 => withNumber 1 (fun n => .signed (signedValue 1 n)) rest
      | 0xd1 => withNumber 2 (fun n => .signed (signedValue 2 n)) rest
      | 0xd2 => withNumber 4 (fun n => .signed (signedValue 4 n)) rest
      | 0xd3 => withNumber 8 (fun n => .signed (signedValue 8 n)) rest
      | 0xd4 => some (.extension 1, rest)
      | 0xd5 => some (.extension 2, rest)
      | 0xd6 => some (.extension 4, rest)
      | 0xd7 => some (.extension 8, rest)
      | 0xd8 => some (.extension 16, rest)
      | 0xd9 => withBytes 1 .text rest
      | 0xda => withBytes 2 .text rest
      | 0xdb => withBytes 4 .text rest
      | 0xdc => withNumber 2 .array rest
      | 0xdd => withNumber 4 .array rest
      | 0xde => withNumber 2 .map rest
      | 0xdf => withNumber 4 .map rest
      | _ => none

end ContentSpace.MessagePack
