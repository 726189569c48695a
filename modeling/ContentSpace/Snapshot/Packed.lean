import ContentSpace.MessagePack.Compact
import ContentSpace.Snapshot.Codec

/-!
# Snapshots in compact bytes

The program stores snapshots with the compact library. This module holds what that library derives
for snapshots and puts it together as `Codec.compact`. Reading takes more than is written: an array
in place of the map of a snapshot or row, fields in any order, rows that leave out what they lack,
and fields of unknown names. It ignores bytes after the snapshot. A value is never read from an
array.
-/

namespace ContentSpace

open MessagePack

/-- The names of the forms of values. -/
def formNames : List String := ["Nil", "Bool", "Int", "Float", "String", "Vec", "Map"]

/-- A pair that carries the content of a value under the name of its form. -/
def writeForm (name : String) (content : List UInt8) : List UInt8 :=
  writeMapHead 1 ++ writeText name ++ content

mutual

/-- The item of a value. -/
def Value.pack : Value → List UInt8
  | .null => writeText "Nil"
  | .bool b => writeForm "Bool" (writeBool b)
  | .int n => writeForm "Int" (writeInt n.toInt)
  | .float x => writeForm "Float" (writeDouble x)
  | .string text => writeForm "String" (writeText text)
  | .array items => writeForm "Vec" (writeArrayHead items.length ++ Value.packItems items)
  | .object fields => writeForm "Map" (writeMapHead fields.length ++ Value.packFields fields)

/-- The items of values in a row. -/
def Value.packItems : List Value → List UInt8
  | [] => []
  | item :: rest => item.pack ++ Value.packItems rest

/-- The items of names and values in a row. -/
def Value.packFields : List (String × Value) → List UInt8
  | [] => []
  | (name, item) :: rest => writeText name ++ item.pack ++ Value.packFields rest

end

/-- The content of a value whose form has the given place among the names of forms. The reader of
inner values is used where one more array or map may be entered. -/
def readContent (room : Nat) (inner : Reader Value) : (form : Nat) → Reader Value
  | 0, bytes => do
    match ← readHead bytes with
    | (.nothing, rest) => some (.null, rest)
    | _ => none
  | 1, bytes => (readBool bytes).map fun (b, rest) => (.bool b, rest)
  | 2, bytes => (readInt bytes).map fun (n, rest) => (.int n, rest)
  | 3, bytes => (readDouble bytes).map fun (x, rest) => (.float x, rest)
  | 4, bytes => (readText bytes).map fun (text, rest) => (.string text, rest)
  | 5, bytes => (readArray room inner bytes).map fun (items, rest) => (.array items, rest)
  | 6, bytes => (readMap room readText inner bytes).map fun (pairs, rest) => (.ofPairs pairs, rest)
  | _, _ => none

/-- A value in any form of its item. -/
def readValueWith (room : Nat) (inner : Reader Value) : Reader Value := fun bytes => do
  match ← readHead bytes with
  | (.map count, rest) =>
    if count = 1 then
      let (name, rest) ← readHead rest
      let form ← (nameOf? formNames name).join
      readContent room inner form rest
    else none
  | (name, rest) => if nameOf? formNames name = some (some 0) then some (.null, rest) else none

/-- A value in which a number of arrays and maps may be inside one another. -/
def readValue : (room : Nat) → Reader Value
  | 0 => readValueWith 0 fun _ => none
  | room + 1 => readValueWith (room + 1) (readValue room)

/-- The item of a row. -/
def SnapshotRow.pack (row : SnapshotRow) : List UInt8 :=
  writeMapHead 4 ++ writeText "handle" ++ writeText row.handle.text ++
    writeText "tag" ++ writeText row.tag ++
    writeText "fingerprint" ++ row.fingerprint.elim writeNothing writeText ++
    writeText "value" ++ row.value.elim writeNothing Value.pack

/-- The item of a snapshot. -/
def Snapshot.pack (snapshot : Snapshot) : List UInt8 :=
  writeMapHead 2 ++ writeText "table" ++ writeText snapshot.table ++
    writeText "entries" ++ writeArrayHead snapshot.rows.length ++
    snapshot.rows.flatMap SnapshotRow.pack

/-- The names of the fields of a row. -/
def rowNames : List String := ["handle", "tag", "fingerprint", "value"]

/-- The fields of a row that were read so far. -/
structure RowDraft where
  /-- The handle. -/
  handle : Option String := none
  /-- The tag. -/
  tag : Option String := none
  /-- The fingerprint, which may be read as absent. -/
  fingerprint : Option (Option String) := none
  /-- The content, which may be read as absent. -/
  value : Option (Option Value) := none

/-- The row that the fields make; without a handle and a tag there is none. -/
def RowDraft.row? (draft : RowDraft) : Option SnapshotRow := do
  let handle ← draft.handle
  let tag ← draft.tag
  some ⟨⟨handle⟩, tag, draft.fingerprint.join, draft.value.join⟩

/-- Puts a field that was read into its place, unless the place is taken. -/
def unlessTaken {α δ : Type} (place : Option α) (put : α → δ) (read : Reader α) : Reader δ :=
  fun bytes =>
    if place.isSome then none else (read bytes).map fun (found, rest) => (put found, rest)

/-- Reads one of the fields of something, whose name comes first and says which reader is used. A
field of another name is passed over and leaves the draft as it is. -/
def readFieldOf {δ : Type} (room : Nat) (names : List String) (readers : List (Reader δ))
    (draft : δ) : Reader δ := fun bytes => do
  let (name, rest) ← readHead bytes
  match ← nameOf? names name with
  | some place =>
    let read ← readers[place]?
    read rest
  | none => (skip room rest).map fun (_, rest) => (draft, rest)

/-- Reads the remaining fields of something, one after the other. -/
def readFieldsInto {δ : Type} (field : δ → Reader δ) : (count : Nat) → δ → Reader δ
  | 0, draft, bytes => some (draft, bytes)
  | count + 1, draft, bytes => do
    let (draft, rest) ← field draft bytes
    readFieldsInto field count draft rest

/-- Reads one field of a row. -/
def RowDraft.readField (room : Nat) (draft : RowDraft) : Reader RowDraft :=
  readFieldOf room rowNames [
    unlessTaken draft.handle (fun text => { draft with handle := some text }) readText,
    unlessTaken draft.tag (fun text => { draft with tag := some text }) readText,
    unlessTaken draft.fingerprint (fun text => { draft with fingerprint := some text })
      (readOptional readText),
    unlessTaken draft.value (fun value => { draft with value := some value })
      (readOptional (readValue room))] draft

/-- A row, whose fields have names or stand in their order. -/
def readRow (room : Nat) : Reader SnapshotRow := fun bytes => do
  match ← readHead bytes with
  | (.map count, rest) =>
    let (draft, rest) ← readFieldsInto (RowDraft.readField room) count {} rest
    draft.row?.map (·, rest)
  | (.array 4, rest) =>
    let (handle, rest) ← readText rest
    let (tag, rest) ← readText rest
    let (fingerprint, rest) ← readOptional readText rest
    let (value, rest) ← readOptional (readValue room) rest
    some (⟨⟨handle⟩, tag, fingerprint, value⟩, rest)
  | _ => none

/-- The names of the fields of a snapshot. -/
def snapshotNames : List String := ["table", "entries"]

/-- The fields of a snapshot that were read so far. -/
structure SnapshotDraft where
  /-- The name of the table. -/
  table : Option String := none
  /-- The rows. -/
  rows : Option (List SnapshotRow) := none

/-- The snapshot that the fields make; both are needed. -/
def SnapshotDraft.snapshot? (draft : SnapshotDraft) : Option Snapshot := do
  let table ← draft.table
  let rows ← draft.rows
  some ⟨table, rows⟩

/-- Reads one field of a snapshot. -/
def SnapshotDraft.readField (room : Nat) (draft : SnapshotDraft) : Reader SnapshotDraft :=
  readFieldOf room snapshotNames [
    unlessTaken draft.table (fun text => { draft with table := some text }) readText,
    unlessTaken draft.rows (fun rows => { draft with rows := some rows })
      (readArray room (readRow (room - 2)))] draft

/-- A snapshot, whose fields have names or stand in their order. -/
def readSnapshot (room : Nat) : Reader Snapshot := fun bytes => do
  match ← readHead bytes with
  | (.map count, rest) =>
    let (draft, rest) ← readFieldsInto (SnapshotDraft.readField room) count {} rest
    draft.snapshot?.map (·, rest)
  | (.array 2, rest) =>
    let (table, rest) ← readText rest
    let (rows, rest) ← readArray room (readRow (room - 2)) rest
    some (⟨table, rows⟩, rest)
  | _ => none

/-- The compact library with what it derives. The snapshot, the array of its rows and a row take
three off the limit of nesting. -/
def Codec.compact : Codec where
  toLibrary := .compact
  limit := nestingLimit - 3
  writeValue value := .ok value.pack
  readValue := ContentSpace.readValue
  writeRow row := .ok row.pack
  readRow := ContentSpace.readRow (nestingLimit - 3)
  writeSnapshot snapshot := .ok snapshot.pack
  readSnapshot bytes :=
    match ContentSpace.readSnapshot (nestingLimit - 1) bytes with
    | some (snapshot, _) => .ok snapshot
    | none => .error "bytes are no snapshot"

/-- The compact library stores the item of a snapshot. -/
theorem Snapshot.toBytes_compact (snapshot : Snapshot) :
    snapshot.toBytes .compact = .ok snapshot.pack := rfl

/-- The snapshot at the front of bytes that the compact library wrote. -/
def Snapshot.unpack (bytes : List UInt8) : Except Fault Snapshot := ofBytes .compact bytes

end ContentSpace
