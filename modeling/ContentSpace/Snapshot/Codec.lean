import ContentSpace.MessagePack.Library
import ContentSpace.Snapshot.Basic

/-!
# Snapshots as bytes

Snapshots are stored as MessagePack. The code that writes and reads them is derived from their types
by the library that also writes the bytes, so a `Codec` is such a library together with the derived
code, and storing only passes its complaints on. `Codec.Documented` states what is documented of
derived code. A snapshot and its rows are records with the names of their fields, what a row lacks
being nothing. A value is a content under the name of its form, except that null is the name alone.
-/

namespace ContentSpace

open MessagePack

/-- A library with the code that it derives for snapshots. -/
structure Codec extends Library where
  /-- How many arrays and objects of a value may be inside one another where a row is read. -/
  limit : Nat
  /-- Writes a value. -/
  writeValue : Writer Value
  /-- Reads a value in which so many arrays and objects may be inside one another. -/
  readValue (room : Nat) : Reader Value
  /-- Writes a row. -/
  writeRow : Writer SnapshotRow
  /-- Reads a row. -/
  readRow : Reader SnapshotRow
  /-- Writes a snapshot. -/
  writeSnapshot : Writer Snapshot
  /-- Reads the snapshot at the front of bytes, or says why there is none. -/
  readSnapshot (bytes : List UInt8) : Except String Snapshot

/-- The bytes of a snapshot. -/
def Snapshot.toBytes (codec : Codec) (snapshot : Snapshot) : Except Fault (List UInt8) :=
  (codec.writeSnapshot snapshot).mapError .unreadable

/-- The snapshot at the front of bytes. -/
def Snapshot.ofBytes (codec : Codec) (bytes : List UInt8) : Except Fault Snapshot :=
  (codec.readSnapshot bytes).mapError .unreadable

namespace Codec

variable (codec : Codec)

/-- Values in which so many arrays and objects may be inside one another. -/
def values (room : Nat) : Format Value := ⟨codec.writeValue, codec.readValue room⟩

/-- Rows. -/
def rows : Format SnapshotRow := ⟨codec.writeRow, codec.readRow⟩

/-! ## Derived code -/

/-- Writes a value as its form demands, once the values inside it can be written. -/
def writeForm : Writer Value
  | .null => codec.text.write "Nil"
  | .bool b => codec.writeTagged "Bool" (codec.bool.write b)
  | .int n => codec.writeTagged "Int" (codec.int.write n)
  | .float x => codec.writeTagged "Float" (codec.double.write x)
  | .string text => codec.writeTagged "String" (codec.text.write text)
  | .array items => codec.writeTagged "Vec" (codec.writeArray codec.writeValue items)
  | .object fields => codec.writeTagged "Map" (codec.writeMap codec.writeValue fields)

/-- The content that stands under the name of a form is read as the form demands. Arrays and objects
need room, and the values inside them are read where there is one less. -/
inductive ReadsContent (content : List UInt8) : (room : Nat) → (form : String) → Value → Prop
  /-- A truth value. -/
  | bool {room : Nat} {b : Bool} (read : Reads codec.bool.read content b) :
      ReadsContent content room "Bool" (.bool b)
  /-- An integer. -/
  | int {room : Nat} {n : Int64} (read : Reads codec.int.read content n) :
      ReadsContent content room "Int" (.int n)
  /-- A double. -/
  | float {room : Nat} {x : Double} (read : Reads codec.double.read content x) :
      ReadsContent content room "Float" (.float x)
  /-- A text. -/
  | string {room : Nat} {text : String} (read : Reads codec.text.read content text) :
      ReadsContent content room "String" (.string text)
  /-- Values in an array. -/
  | array {room : Nat} {items : List Value}
      (read : Reads (codec.readArray (codec.readValue room)) content items) :
      ReadsContent content (room + 1) "Vec" (.array items)
  /-- Names and values in a map, from which the object is made. -/
  | object {room : Nat} {pairs : List (String × Value)}
      (read : Reads (codec.readMap (codec.readValue room)) content pairs) :
      ReadsContent content (room + 1) "Map" (.ofPairs pairs)

/-- Writes a row under the names of its fields. -/
def writeRowFields : Writer SnapshotRow := fun row => do
  codec.writeRecord [
    ("handle", ← codec.text.write row.handle.text),
    ("tag", ← codec.text.write row.tag),
    ("fingerprint", ← codec.writeOptional codec.text.write row.fingerprint),
    ("value", ← codec.writeOptional codec.writeValue row.value)]

/-- Writes a snapshot under the names of its fields. -/
def writeSnapshotFields : Writer Snapshot := fun snapshot => do
  codec.writeRecord [
    ("table", ← codec.text.write snapshot.table),
    ("entries", ← codec.writeArray codec.writeRow snapshot.rows)]

/-- What is documented of a library and of the code that it derives. -/
structure Documented : Prop extends codec.toLibrary.Documented where
  /-- The name that stands for null is written. -/
  writes_null : ∃ bytes, codec.text.write "Nil" = .ok bytes
  /-- Values are written by their forms. -/
  writes_value : codec.writeValue = codec.writeForm
  /-- Rows are written by their fields. -/
  writes_row : codec.writeRow = codec.writeRowFields
  /-- Snapshots are written by their fields. -/
  writes_snapshot : codec.writeSnapshot = codec.writeSnapshotFields
  /-- The name that stands for null is read as null. -/
  reads_null : ∀ {room bytes}, codec.text.write "Nil" = .ok bytes →
    Reads (codec.readValue room) bytes .null
  /-- A record of the name of a form is read by its content. -/
  reads_value : ∀ {room form content value bytes}, codec.ReadsContent content room form value →
    codec.writeRecord [(form, content)] = .ok bytes → Reads (codec.readValue room) bytes value
  /-- A record with the fields of a row is read by the contents of the fields. -/
  reads_row : ∀ {handle tag fingerprint value bytes} {row : SnapshotRow},
    Reads codec.text.read handle row.handle.text → Reads codec.text.read tag row.tag →
    codec.ReadsOptional codec.text.read fingerprint row.fingerprint →
    codec.ReadsOptional (codec.readValue codec.limit) value row.value →
    codec.writeRecord [("handle", handle), ("tag", tag), ("fingerprint", fingerprint),
      ("value", value)] = .ok bytes → Reads codec.readRow bytes row
  /-- A record with the fields of a snapshot is read by the contents of the fields. -/
  reads_snapshot : ∀ {table entries bytes} {snapshot : Snapshot},
    Reads codec.text.read table snapshot.table →
    Reads (codec.readArray codec.readRow) entries snapshot.rows →
    codec.writeRecord [("table", table), ("entries", entries)] = .ok bytes →
    codec.readSnapshot bytes = .ok snapshot

end Codec

end ContentSpace
