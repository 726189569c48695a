import ContentSpace.Proofs.Snapshot.Document
import ContentSpace.Proofs.Space.Content

/-!
# Snapshots of a space

A snapshot of a table lists each live entry once, in the order of handles, with what the space
resolves for the handle. Names given to handles and handles that were retired leave no row and no
gap, because the maps of a reached table agree. Without content the same rows are listed, and what
they lack is missing and not null.
-/

namespace ContentSpace

/-- No operation changes the name of a table. -/
theorem Table.name_runAll [Hashing] (table : Table) (history : List Table.Operation) :
    (table.runAll history).name = table.name := by
  refine @Table.runAll_preserves _ (fun other => other.name = table.name) history ?_ table rfl
  intro operation _ other answer after same effect
  cases effect <;> exact same

/-- The tables of a reached space have the names that they are bound to. -/
theorem Space.TablesReached.name_eq [Hashing] {space : Space} (reached : space.TablesReached)
    {name : String} {table : Table} (found : space.tables.get? name = some table) :
    table.name = name := by
  obtain ⟨parent, history, rfl⟩ := reached name table found
  exact Table.name_runAll ..

/-- The row without content. -/
def SnapshotRow.bare (row : SnapshotRow) : SnapshotRow :=
  { row with fingerprint := none, value := none }

namespace Snapshot

/-- A snapshot lists what a table of a space stores, with the content. -/
structure Lists [Hashing] (snapshot : Snapshot) (space : Space) (table : Table) : Prop where
  /-- The snapshot has the name of the table. -/
  named : snapshot.table = table.name
  /-- There are as many rows as entries. -/
  size : snapshot.size = table.size
  /-- Handles ascend, so none is listed twice. -/
  ascending : snapshot.rows.Pairwise fun left right => left.handle.text < right.handle.text
  /-- The handles of the rows are the live ones. -/
  live : ∀ handle, handle ∈ snapshot.handles ↔ table.entries.contains handle.text = true
  /-- Whatever a key of the table stands for, also by a further name, has its row. -/
  bound : ∀ key entry, table.get? key = some entry →
    ∃ row ∈ snapshot.rows, row.handle = entry.handle ∧ row.value = some entry.value
  /-- A row has the content that the space resolves for its handle, the fingerprint of the content,
  and the tag of the handle. -/
  content : ∀ row ∈ snapshot.rows, ∃ value, row.value = some value ∧
    space.resolve table.name row.handle.text = .ok value ∧ row.tag = row.handle.tag ∧
      row.fingerprint = some (Fingerprint.of value).hex

/-- Without content a table is listed in the same rows. -/
theorem capture_false (table : Table) :
    capture table false =
      { capture table true with rows := (capture table true).rows.map SnapshotRow.bare } := by
  simp [capture, SnapshotRow.bare]

/-- A row stands for an entry. -/
theorem mem_rows_capture_iff {table : Table} {row : SnapshotRow} :
    row ∈ (capture table true).rows ↔ ∃ key entry, table.entries.get? key = some entry ∧
      row = ⟨entry.handle, entry.tag, some entry.fingerprint.hex, some entry.value⟩ := by
  simp only [capture, List.mem_map, NameMap.mem_values_iff, if_true]
  constructor
  · rintro ⟨entry, ⟨key, stored⟩, rfl⟩
    exact ⟨key, entry, stored, rfl⟩
  · rintro ⟨key, entry, stored, rfl⟩
    exact ⟨entry, ⟨key, stored⟩, rfl⟩

/-- The handles of a table whose maps agree are listed in order. -/
theorem ascending_capture [Hashing] {table : Table} (consistent : table.Consistent) :
    (capture table true).rows.Pairwise fun left right => left.handle.text < right.handle.text := by
  rw [capture, NameMap.values, List.map_map, List.pairwise_map]
  have named : ∀ field ∈ table.entries.fields, field.2.handle.text = field.1 :=
    fun field member => consistent.handle (NameMap.mem_fields_iff.mp member)
  apply table.entries.ascending.imp_of_mem
  intro left right first second less
  show left.2.handle.text < right.2.handle.text
  rw [named left first, named right second]
  exact less

/-- The handles listed for a table whose maps agree are those of its entries. -/
theorem mem_handles_capture_iff [Hashing] {table : Table} (consistent : table.Consistent)
    {handle : Handle} :
    handle ∈ (capture table true).handles ↔ table.entries.contains handle.text = true := by
  rw [NameMap.contains, Option.isSome_iff_exists, handles, List.mem_map]
  constructor
  · rintro ⟨row, member, rfl⟩
    obtain ⟨key, entry, stored, rfl⟩ := mem_rows_capture_iff.mp member
    have named : entry.handle.text = key := consistent.handle stored
    exact ⟨entry, by rw [named, stored]⟩
  · rintro ⟨entry, stored⟩
    have named : entry.handle.text = handle.text := consistent.handle stored
    exact ⟨_, mem_rows_capture_iff.mpr ⟨_, entry, stored, rfl⟩, Handle.text_inj named⟩

/-- The snapshot of a table of a reached space, with content, lists what the table stores. -/
theorem lists_capture [Hashing] {space : Space} (reached : space.TablesReached) {name : String}
    {table : Table} (found : space.tables.get? name = some table) :
    (capture table true).Lists space table := by
  have consistent : table.Consistent := reached.consistent found
  constructor
  case named => rfl
  case size => simp [Snapshot.size, capture, Table.size, NameMap.size, NameMap.values]
  case ascending => exact ascending_capture consistent
  case live => exact fun handle => mem_handles_capture_iff consistent
  case bound =>
    intro key entry binds
    exact ⟨_, mem_rows_capture_iff.mpr ⟨_, entry, consistent.live binds, rfl⟩, rfl, rfl⟩
  case content =>
    intro row member
    obtain ⟨key, entry, stored, rfl⟩ := mem_rows_capture_iff.mp member
    have sound : entry.Sound := consistent.sound stored
    have named : entry.handle.text = key := consistent.handle stored
    have binds : table.get? entry.handle.text = some entry := by
      rw [named, Table.get?, stored]
      rfl
    have resolved : space.resolve name entry.handle.text = .ok entry.value := by
      rw [Space.resolve, Space.lookup_of_get? found binds]
      rfl
    rw [← reached.name_eq found] at resolved
    exact ⟨entry.value, rfl, resolved, sound.tag, by rw [sound.fingerprint]⟩

end Snapshot

namespace Space

/-- In every space that a history reaches, a snapshot of a table with content has one row for each
live entry, by strictly ascending handles, and each row has what the space resolves for its handle
together with the fingerprint of that and the tag of the handle. A snapshot without content has the
same rows without fingerprint and content. Asking for either changes nothing. Any two snapshots make
the same value exactly when they are the same, and so a row without content is told apart from one
whose content is null. -/
theorem snapshot_lists_live_entries [Hashing] (configuration : SpaceConfiguration)
    (history : List Operation) (name : String) :
    let space := (ofConfiguration configuration).runAll history
    (∀ table, space.table name = .ok table → ∃ full : Snapshot,
      full.Lists space table ∧ table.name = name ∧
      space.run (.snapshot name true) = (.ok (.snapshot full), space) ∧
      space.run (.snapshot name false) =
        (.ok (.snapshot { full with rows := full.rows.map SnapshotRow.bare }), space)) ∧
    (∀ left right : Snapshot, (left.toValue == right.toValue) = (left == right)) ∧
    ∀ row : SnapshotRow, ({ row with value := none }.toValue ==
      { row with value := some .null }.toValue) = false := by
  intro space
  refine ⟨?_, Snapshot.toValue_beq, SnapshotRow.toValue_none_ne_null⟩
  intro table known
  have reached : space.TablesReached := tablesReached_runAll configuration history
  have found := get?_of_table known
  refine ⟨.capture table true, Snapshot.lists_capture reached found, reached.name_eq found, ?_, ?_⟩
  · rw [run, known]
    rfl
  · rw [run, known, ← Snapshot.capture_false]
    rfl

/-- An entry that was deleted through a further name and stored again is listed once, under its old
handle, next to one that holds null. -/
theorem snapshot_lists_live_entries_after_revival :
    let space := (ofConfiguration { digestLength := 1 }).runAll
      [.createTable "t", .collapse "t" "v" (.int 3), .collapse "t" "v" .null,
        .addAlias "t" "three" "v:9", .delete "t" "three", .collapse "t" "a" (.array [.null]),
        .collapse "t" "v" (.int 3), .addAlias "t" "again" "v:9"]
    ∃ (table : Table) (full : Snapshot), space.table "t" = .ok table ∧
      full.Lists space table ∧ full.handles = [⟨"a:f"⟩, ⟨"v:7"⟩, ⟨"v:9"⟩] ∧
      space.run (.snapshot "t" false) =
        (.ok (.snapshot { full with rows := full.rows.map SnapshotRow.bare }), space) := by
  intro space
  have facts : (space.tables.get? "t").any (fun table =>
      decide ((Snapshot.capture table true).handles = [⟨"a:f"⟩, ⟨"v:7"⟩, ⟨"v:9"⟩])) = true := by
    decide +kernel
  obtain ⟨table, found, holds⟩ := (Option.any_eq_true _ _).mp facts
  have handles := of_decide_eq_true holds
  have known : space.table "t" = .ok table := table_of_get? found
  obtain ⟨full, lists, -, listed, bare⟩ := (snapshot_lists_live_entries { digestLength := 1 }
    [.createTable "t", .collapse "t" "v" (.int 3), .collapse "t" "v" .null,
      .addAlias "t" "three" "v:9", .delete "t" "three", .collapse "t" "a" (.array [.null]),
      .collapse "t" "v" (.int 3), .addAlias "t" "again" "v:9"] "t").1 table known
  rw [run, known] at listed
  cases listed
  exact ⟨table, _, known, lists, handles, bare⟩

end Space

end ContentSpace
