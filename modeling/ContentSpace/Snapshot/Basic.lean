import ContentSpace.Table.Basic
import ContentSpace.Value.Equality

/-!
# Snapshots

A snapshot lists the handles of a table in order, with or without the content. As a value it is an
object of the table name and the rows, where a row without content lacks the fields for it, so that
it differs from a row whose content is null.
-/

namespace ContentSpace

/-- One row of a snapshot. -/
structure SnapshotRow where
  /-- The handle of the entry. -/
  handle : Handle
  /-- The tag of the entry. -/
  tag : String
  /-- The fingerprint in hexadecimal, if content is listed. -/
  fingerprint : Option String
  /-- The content, if it is listed. -/
  value : Option Value

/-- The handles of a table at one time. -/
structure Snapshot where
  /-- The name of the table. -/
  table : String
  /-- The rows in the order of handles. -/
  rows : List SnapshotRow

/-- Whether two optional contents are the same. -/
def sameOptional : Option Value → Option Value → Bool
  | none, none => true
  | some left, some right => left == right
  | _, _ => false

instance : BEq SnapshotRow where
  beq left right := left.handle == right.handle && left.tag == right.tag &&
    left.fingerprint == right.fingerprint && sameOptional left.value right.value

instance : BEq Snapshot where
  beq left right := left.table == right.table && left.rows == right.rows

namespace Snapshot

/-- The snapshot of a table. -/
def capture (table : Table) (withContent : Bool) : Snapshot where
  table := table.name
  rows := table.entries.values.map fun entry =>
    { handle := entry.handle
      tag := entry.tag
      fingerprint := if withContent then some entry.fingerprint.hex else none
      value := if withContent then some entry.value else none }

/-- Number of rows. -/
def size (snapshot : Snapshot) : Nat := snapshot.rows.length

/-- Whether the table was empty. -/
def isEmpty (snapshot : Snapshot) : Bool := snapshot.rows.isEmpty

/-- The handles in order. -/
def handles (snapshot : Snapshot) : List Handle := snapshot.rows.map SnapshotRow.handle

end Snapshot

/-- A row as a value. -/
def SnapshotRow.toValue (row : SnapshotRow) : Value :=
  .ofPairs ([("handle", .string row.handle.text), ("tag", .string row.tag)] ++
    (row.fingerprint.toList.map fun hex => ("fingerprint", .string hex)) ++
    row.value.toList.map fun value => ("value", value))

/-- A snapshot as a value. -/
def Snapshot.toValue (snapshot : Snapshot) : Value :=
  .ofPairs [("table", .string snapshot.table),
    ("entries", .array (snapshot.rows.map SnapshotRow.toValue))]

end ContentSpace
