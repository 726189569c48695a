import ContentSpace.Number.Double

/-!
# What is asked of a library for MessagePack

How things are spelled in bytes is left to a library. A `Library` says what is asked of it: numbers,
texts, arrays, maps from names, and records, which are maps whose names and contents are given.
Nothing of it is fixed here. `Library.Documented` states what its documentation promises whatever is
written; that a text, an array or a map is read back is said of each by itself, in `KeepsText`,
`KeepsArray` and `KeepsMap`, because no library keeps texts and arrays of all sizes.
-/

namespace ContentSpace.MessagePack

/-- Writes a thing as bytes, or says why it cannot. -/
abbrev Writer (α : Type) := α → Except String (List UInt8)

/-- Takes one thing from the front of bytes. -/
abbrev Reader (α : Type) := List UInt8 → Option (α × List UInt8)

/-- A reader gives a thing back from its bytes, whatever follows them. -/
def Reads {α : Type} (reader : Reader α) (bytes : List UInt8) (thing : α) : Prop :=
  ∀ rest, reader (bytes ++ rest) = some (thing, rest)

/-- A writer and a reader of one type. -/
structure Format (α : Type) where
  /-- Writes a thing. -/
  write : Writer α
  /-- Reads a thing. -/
  read : Reader α

/-- A thing is written, and it is read back from its bytes. -/
def Format.KeepsAt {α : Type} (format : Format α) (thing : α) : Prop :=
  ∃ bytes, format.write thing = .ok bytes ∧ Reads format.read bytes thing

/-- A library that writes and reads MessagePack. -/
structure Library where
  /-- The bytes for nothing. -/
  nothing : List UInt8
  /-- Truth values. -/
  bool : Format Bool
  /-- Integers of 64 bits. -/
  int : Format Int64
  /-- Doubles. -/
  double : Format Double
  /-- Texts. -/
  text : Format String
  /-- Writes things in an array. -/
  writeArray {α : Type} (item : Writer α) : Writer (List α)
  /-- Reads things from an array. -/
  readArray {α : Type} (item : Reader α) : Reader (List α)
  /-- Writes things in a map from names. -/
  writeMap {α : Type} (item : Writer α) : Writer (List (String × α))
  /-- Reads names and things from a map, in the order of the map. -/
  readMap {α : Type} (item : Reader α) : Reader (List (String × α))
  /-- Writes a map from names to contents that are written already. -/
  writeRecord : Writer (List (String × List UInt8))

namespace Library

variable {α : Type} (library : Library)

/-- Things in an array. -/
def array (item : Format α) : Format (List α) :=
  ⟨library.writeArray item.write, library.readArray item.read⟩

/-- Things in a map from names. -/
def map (item : Format α) : Format (List (String × α)) :=
  ⟨library.writeMap item.write, library.readMap item.read⟩

/-- Writes a content under a name that stands outside of it. -/
def writeTagged (name : String) (content : Except String (List UInt8)) :
    Except String (List UInt8) := do
  library.writeRecord [(name, ← content)]

/-- Writes something that may be absent, as nothing if it is. -/
def writeOptional (item : Writer α) : Writer (Option α)
  | none => .ok library.nothing
  | some thing => item thing

/-- Bytes do not start as nothing does, whatever follows them. -/
def Present (bytes : List UInt8) : Prop := ∀ rest, ¬ library.nothing <+: bytes ++ rest

/-- Bytes stand for something that may be absent: they are nothing if it is, and else the thing is
read from them and they are present. -/
def ReadsOptional (item : Reader α) (bytes : List UInt8) : Option α → Prop
  | none => bytes = library.nothing
  | some thing => Reads item bytes thing ∧ library.Present bytes

/-- A text is read back. -/
def KeepsText (text : String) : Prop := library.text.KeepsAt text

/-- Every array of so many things is read back if each of the things is. -/
def KeepsArray (count : Nat) : Prop :=
  ∀ {α : Type} (item : Format α) (things : List α), things.length = count →
    (∀ thing ∈ things, item.KeepsAt thing) → (library.array item).KeepsAt things

/-- Every map of so many things is read back if each of the names and of the things is. -/
def KeepsMap (count : Nat) : Prop :=
  ∀ {α : Type} (item : Format α) (fields : List (String × α)), fields.length = count →
    (∀ field ∈ fields, library.KeepsText field.1 ∧ item.KeepsAt field.2) →
      (library.map item).KeepsAt fields

/-- What the documentation of a library promises. -/
structure Documented : Prop where
  /-- Truth values are read back. -/
  keeps_bool : ∀ b, library.bool.KeepsAt b
  /-- Integers are read back. -/
  keeps_int : ∀ n, library.int.KeepsAt n
  /-- Doubles are read back. -/
  keeps_double : ∀ x, library.double.KeepsAt x
  /-- Records are written. -/
  writes_record : ∀ fields, ∃ bytes, library.writeRecord fields = .ok bytes
  /-- A text does not start as nothing does. -/
  text_present : ∀ {text bytes}, library.text.write text = .ok bytes → library.Present bytes
  /-- A record does not start as nothing does. -/
  record_present : ∀ {fields bytes}, library.writeRecord fields = .ok bytes → library.Present bytes

end Library

end ContentSpace.MessagePack
