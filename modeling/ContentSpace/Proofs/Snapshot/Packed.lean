import ContentSpace.Proofs.MessagePack.Compact
import ContentSpace.Proofs.Snapshot.Codec
import ContentSpace.Snapshot.Packed

/-!
# The compact library on snapshots

What is asked of the library that snapshots are stored with holds of the compact one: it writes
values by their forms and rows and snapshots by their fields, and it reads each of them from the
contents that it reads. What it keeps of a snapshot can be decided, since only the sizes of texts,
arrays and maps matter.
-/

namespace ContentSpace

open MessagePack

/-! ## Writing -/

namespace Value

/-- The item of each of several items is written. -/
theorem writeMany_pack (items : List Value) :
    writeMany (fun item => .ok item.pack) items = .ok (packItems items) := by
  induction items with
  | nil => rfl
  | cons item rest ih => simp only [writeMany, ih, bind, Except.bind, packItems]

/-- The name and the item of each of several fields is written. -/
theorem writeMany_packFields (fields : List (String × Value)) :
    writeMany (writePair fun item : Value => .ok item.pack) fields = .ok (packFields fields) := by
  induction fields with
  | nil => rfl
  | cons field rest ih => simp only [writeMany, writePair, ih, bind, Except.bind, packFields]

end Value

namespace Codec

/-- A content under a name is a record of one pair. -/
theorem writeTagged_compact (form : String) (content : List UInt8) :
    compact.writeTagged form (.ok content) = .ok (ContentSpace.writeForm form content) := by
  have written := Library.compact_writeRecord [(form, content)]
  rw [List.flatMap_singleton, ← List.append_assoc] at written
  exact written

/-- The item of a value is written by its form. -/
theorem writeForm_compact (value : Value) : compact.writeForm value = .ok value.pack := by
  cases value with
  | null => rfl
  | bool | int | float | string => exact writeTagged_compact ..
  | array items =>
    have content : compact.writeArray compact.writeValue items =
        .ok (writeArrayHead items.length ++ Value.packItems items) := by
      simp only [compact, Library.compact, Value.writeMany_pack, bind, Except.bind]
    rw [writeForm, content]
    exact writeTagged_compact ..
  | object fields =>
    have content : compact.writeMap compact.writeValue fields =
        .ok (writeMapHead fields.length ++ Value.packFields fields) := by
      simp only [compact, Library.compact, Value.writeMany_packFields, bind, Except.bind]
    rw [writeForm, content]
    exact writeTagged_compact ..

/-- What may be absent is written as nothing or as it is. -/
theorem writeOptional_compact {α : Type} (write : α → List UInt8) (thing : Option α) :
    compact.writeOptional (fun thing => .ok (write thing)) thing =
      .ok (thing.elim writeNothing write) := by
  cases thing <;> rfl

/-- The item of a row is written by its fields. -/
theorem writeRowFields_compact (row : SnapshotRow) :
    compact.writeRowFields row = .ok row.pack := by
  have fingerprint : compact.writeOptional compact.text.write row.fingerprint = _ :=
    writeOptional_compact writeText row.fingerprint
  have value : compact.writeOptional compact.writeValue row.value = _ :=
    writeOptional_compact Value.pack row.value
  have written := Library.compact_writeRecord [("handle", writeText row.handle.text),
    ("tag", writeText row.tag), ("fingerprint", row.fingerprint.elim writeNothing writeText),
    ("value", row.value.elim writeNothing Value.pack)]
  simp only [List.flatMap_cons, List.flatMap_nil, List.append_nil, ← List.append_assoc] at written
  rw [writeRowFields, fingerprint, value]
  exact written

/-- The item of a snapshot is written by its fields. -/
theorem writeSnapshotFields_compact (snapshot : Snapshot) :
    compact.writeSnapshotFields snapshot = .ok snapshot.pack := by
  have rows : writeMany (fun row : SnapshotRow => .ok row.pack) snapshot.rows =
      .ok (snapshot.rows.flatMap SnapshotRow.pack) := by
    induction snapshot.rows with
    | nil => rfl
    | cons row rest ih => simp only [writeMany, ih, bind, Except.bind, List.flatMap_cons]
  have entries : compact.writeArray compact.writeRow snapshot.rows =
      .ok (writeArrayHead snapshot.rows.length ++ snapshot.rows.flatMap SnapshotRow.pack) := by
    simp only [compact, Library.compact, rows, bind, Except.bind]
  have written := Library.compact_writeRecord [("table", writeText snapshot.table),
    ("entries", writeArrayHead snapshot.rows.length ++ snapshot.rows.flatMap SnapshotRow.pack)]
  simp only [List.flatMap_cons, List.flatMap_nil, List.append_nil, ← List.append_assoc] at written
  rw [writeSnapshotFields, entries]
  exact written

end Codec

/-! ## Reading values -/

variable {room : Nat}

/-- The reader of the values inside a value. -/
def innerReader : (room : Nat) → Reader Value
  | 0 => fun _ => none
  | room + 1 => readValue room

/-- Values are read with the reader of the values inside them. -/
theorem readValue_eq (room : Nat) : readValue room = readValueWith room (innerReader room) := by
  cases room <;> rfl

/-- The name of a form leads to the reader of its content. -/
theorem readValue_writeForm {name : String} (form : Nat) (short : ShortText name)
    (place : formNames.idxOf? name = some form) (content rest : List UInt8) :
    readValue room (writeForm name content ++ rest) =
      readContent room (innerReader room) form (content ++ rest) := by
  have one : readHead (writeMapHead 1 ++ (writeText name ++ (content ++ rest))) =
      some (.map 1, writeText name ++ (content ++ rest)) := reads_writeMapHead 1 _
  rw [readValue_eq, readValueWith, writeForm, List.append_assoc, List.append_assoc]
  simp only [one, reads_head_writeText short _, nameOf?_text, place, bind, Option.bind,
    Option.join_some, if_true]

/-- A bare name is read as null. -/
theorem reads_null (room : Nat) : Reads (readValue room) (writeText "Nil") .null := by
  intro rest
  have short : ShortText "Nil" := by decide
  have place : formNames.idxOf? "Nil" = some 0 := by decide
  rw [readValue_eq, readValueWith, reads_head_writeText short rest]
  simp only [nameOf?_text, place, bind, Option.bind, if_true]

/-- A value is read from a record of the name of its form by its content. -/
theorem reads_writeForm {form : String} {content : List UInt8} {value : Value}
    (read : Codec.compact.ReadsContent content room form value) :
    Reads (readValue room) (writeForm form content) value := by
  intro rest
  cases read with
  | bool read =>
    have inner : readBool (content ++ rest) = _ := read rest
    rw [readValue_writeForm 1 (by decide) (by decide), readContent, inner, Option.map_some]
  | int read =>
    have inner : readInt (content ++ rest) = _ := read rest
    rw [readValue_writeForm 2 (by decide) (by decide), readContent, inner, Option.map_some]
  | float read =>
    have inner : readDouble (content ++ rest) = _ := read rest
    rw [readValue_writeForm 3 (by decide) (by decide), readContent, inner, Option.map_some]
  | string read =>
    have inner : readText (content ++ rest) = _ := read rest
    rw [readValue_writeForm 4 (by decide) (by decide), readContent, inner, Option.map_some]
  | @array room _ read =>
    have inner : readArray (room + 1) (readValue room) (content ++ rest) = _ := read rest
    rw [readValue_writeForm 5 (by decide) (by decide), readContent, innerReader, inner,
      Option.map_some]
  | @object room _ read =>
    have inner : readMap (room + 1) readText (readValue room) (content ++ rest) = _ := read rest
    rw [readValue_writeForm 6 (by decide) (by decide), readContent, innerReader, inner,
      Option.map_some]

/-! ## Reading rows and snapshots -/

/-- What is read for a place that is free is put there. -/
theorem unlessTaken_none {α δ : Type} (put : α → δ) (reader : Reader α) (bytes : List UInt8) :
    unlessTaken none put reader bytes =
      (reader bytes).map fun (found, rest) => (put found, rest) := by
  rw [unlessTaken, Option.isSome_none, if_neg Bool.false_ne_true]

/-- A field is read by its name into its place, when the place is free. -/
theorem readFieldOf_name {α δ : Type} {names : List String} {readers : List (Reader δ)} {draft : δ}
    {name : String} {put : α → δ} {reader : Reader α} {content : List UInt8} {found : α}
    (place : Nat) (first : names.idxOf? name = some place)
    (there : readers[place]? = some (unlessTaken none put reader)) (short : ShortText name)
    (read : Reads reader content found) (rest : List UInt8) :
    readFieldOf room names readers draft (writeText name ++ (content ++ rest)) =
      some (put found, rest) := by
  simp only [readFieldOf, reads_head_writeText short _, nameOf?_text, first, there, bind,
    Option.bind, unlessTaken_none, read rest, Option.map_some]

/-- A row is read from a record of its fields. -/
theorem reads_readRow {handle tag fingerprint value bytes : List UInt8} {row : SnapshotRow}
    (readHandle : Reads readText handle row.handle.text) (readTag : Reads readText tag row.tag)
    (readFingerprint : Reads (readOptional readText) fingerprint row.fingerprint)
    (readValue : Reads (readOptional (readValue room)) value row.value)
    (wrote : Library.compact.writeRecord [("handle", handle), ("tag", tag),
      ("fingerprint", fingerprint), ("value", value)] = .ok bytes) :
    Reads (readRow room) bytes row := by
  rw [Library.compact_writeRecord] at wrote
  cases wrote
  intro rest
  have four : Reads readHead (writeMapHead 4) (.map 4) := reads_writeMapHead 4
  simp only [List.length_cons, List.length_nil, List.flatMap_cons, List.flatMap_nil,
    List.append_nil, List.append_assoc, readRow, four _, bind, Option.bind, readFieldsInto,
    RowDraft.readField]
  rw [readFieldOf_name 0 (by decide) rfl (by decide) readHandle]
  dsimp only
  rw [readFieldOf_name 1 (by decide) rfl (by decide) readTag]
  dsimp only
  rw [readFieldOf_name 2 (by decide) rfl (by decide) readFingerprint]
  dsimp only
  rw [readFieldOf_name 3 (by decide) rfl (by decide) readValue]
  rfl

/-- A snapshot is read from a record of its fields. -/
theorem reads_readSnapshot {table entries bytes : List UInt8} {snapshot : Snapshot}
    (readTable : Reads readText table snapshot.table)
    (readEntries : Reads (readArray room (readRow (room - 2))) entries snapshot.rows)
    (wrote : Library.compact.writeRecord [("table", table), ("entries", entries)] = .ok bytes) :
    Reads (readSnapshot room) bytes snapshot := by
  rw [Library.compact_writeRecord] at wrote
  cases wrote
  intro rest
  have two : Reads readHead (writeMapHead 2) (.map 2) := reads_writeMapHead 2
  simp only [List.length_cons, List.length_nil, List.flatMap_cons, List.flatMap_nil,
    List.append_nil, List.append_assoc, readSnapshot, two _, bind, Option.bind, readFieldsInto,
    SnapshotDraft.readField]
  rw [readFieldOf_name 0 (by decide) rfl (by decide) readTable]
  dsimp only
  rw [readFieldOf_name 1 (by decide) rfl (by decide) readEntries]
  rfl

namespace Codec

/-- The compact library does what is documented of a library that snapshots are stored with. -/
theorem compact_documented : compact.Documented where
  toDocumented := Library.compact_documented
  writes_null := ⟨_, rfl⟩
  writes_value := funext fun value => (writeForm_compact value).symm
  writes_row := funext fun row => (writeRowFields_compact row).symm
  writes_snapshot := funext fun snapshot => (writeSnapshotFields_compact snapshot).symm
  reads_null := by
    rintro room _ ⟨⟩
    exact reads_null room
  reads_value := by
    intro room form content value bytes read wrote
    have single : compact.writeRecord [(form, content)] = _ := writeTagged_compact form content
    cases single.symm.trans wrote
    exact reads_writeForm read
  reads_row readHandle readTag readFingerprint readValue wrote :=
    reads_readRow readHandle readTag (reads_readOptional readFingerprint)
      (reads_readOptional readValue) wrote
  reads_snapshot := by
    intro table entries bytes snapshot readTable readEntries wrote
    have read : Reads (ContentSpace.readSnapshot (nestingLimit - 1)) bytes snapshot :=
      reads_readSnapshot readTable readEntries wrote
    have whole := read []
    rw [List.append_nil] at whole
    simp only [compact, whole]

end Codec

/-! ## What is kept -/

/-- A value is a text that is short, or its items or fields can be counted in four bytes and its
names are short. -/
def Value.ShortForm : Value → Prop
  | string text => ShortText text
  | array items => items.length < 0x100000000
  | object fields => fields.length < 0x100000000 ∧ ∀ field ∈ fields, ShortText field.1
  | _ => True

instance : DecidablePred Value.ShortForm := fun value =>
  match value with
  | .string text => inferInstanceAs (Decidable (ShortText text))
  | .array items => inferInstanceAs (Decidable (items.length < 0x100000000))
  | .object fields => inferInstanceAs
    (Decidable (fields.length < 0x100000000 ∧ ∀ field ∈ fields, ShortText field.1))
  | .null | .bool _ | .int _ | .float _ => .isTrue trivial

/-- The texts, arrays and maps of a snapshot are short. -/
def Snapshot.Short (snapshot : Snapshot) : Prop :=
  ShortText snapshot.table ∧ snapshot.rows.length < 0x100000000 ∧
    ∀ row ∈ snapshot.rows, (∀ text ∈ row.texts, ShortText text) ∧
      ∀ value ∈ row.value, ∀ part ∈ value.inside, part.ShortForm

instance : DecidablePred Snapshot.Short := fun snapshot =>
  inferInstanceAs (Decidable (ShortText snapshot.table ∧ snapshot.rows.length < 0x100000000 ∧
    ∀ row ∈ snapshot.rows, (∀ text ∈ row.texts, ShortText text) ∧
      ∀ value ∈ row.value, ∀ part ∈ value.inside, part.ShortForm))

namespace Codec

/-- A short text, array or map is kept. -/
theorem compact_keepsForm {value : Value} (short : value.ShortForm) : compact.KeepsForm value := by
  cases value with
  | null | bool | int | float => trivial
  | string text => exact Library.compact_keepsText short
  | array items => exact Library.compact_keepsArray short
  | object fields =>
    obtain ⟨count, names⟩ := short
    exact ⟨Library.compact_keepsMap count, fun field member =>
      Library.compact_keepsText (names field member)⟩

/-- A short snapshot is kept. -/
theorem compact_keeps {snapshot : Snapshot} (short : snapshot.Short) : compact.Keeps snapshot := by
  obtain ⟨table, count, rows⟩ := short
  exact {
    table := Library.compact_keepsText table
    count := Library.compact_keepsArray count
    texts := fun row member text listed =>
      Library.compact_keepsText ((rows row member).1 text listed)
    values := fun row member value listed part within =>
      compact_keepsForm ((rows row member).2 value listed part within) }

end Codec

end ContentSpace
