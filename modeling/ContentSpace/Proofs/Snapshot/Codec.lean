import ContentSpace.Proofs.Fields
import ContentSpace.Snapshot.Codec

/-!
# Snapshots are read back from bytes

Whichever library writes the bytes, a snapshot comes back from them when the library does what is
documented of it, when it keeps the texts, arrays and maps of the snapshot, and when the contents
nest no deeper than it reads. A value comes back by induction on the room that is left for nesting:
each form has a name of its own, so a null is no absence and an integer is no double, and an object
is made anew from its pairs, which gives the same object because its fields are in order.
-/

namespace ContentSpace

open MessagePack

/-! ## Values and what is inside them -/

namespace Value

mutual

/-- The value and the values inside it. -/
def inside : Value → List Value
  | array items => array items :: insideItems items
  | object fields => object fields :: insideFields fields
  | value => [value]

/-- The items and the values inside them. -/
def insideItems : List Value → List Value
  | [] => []
  | item :: rest => item.inside ++ insideItems rest

/-- The values of fields and the values inside them. -/
def insideFields : List (String × Value) → List Value
  | [] => []
  | (_, item) :: rest => item.inside ++ insideFields rest

end

/-- What is inside an item is inside the items. -/
theorem inside_subset_insideItems {items : List Value} {item : Value} (member : item ∈ items) :
    item.inside ⊆ insideItems items := by
  induction items with
  | nil => cases member
  | cons first rest ih =>
    rw [insideItems]
    rcases List.mem_cons.mp member with rfl | later
    · exact List.subset_append_left ..
    · exact List.Subset.trans (ih later) (List.subset_append_right ..)

/-- What is inside the value of a field is inside the fields. -/
theorem inside_subset_insideFields {fields : List (String × Value)} {field : String × Value}
    (member : field ∈ fields) : field.2.inside ⊆ insideFields fields := by
  induction fields with
  | nil => cases member
  | cons first rest ih =>
    rw [insideFields]
    rcases List.mem_cons.mp member with rfl | later
    · exact List.subset_append_left ..
    · exact List.Subset.trans (ih later) (List.subset_append_right ..)

/-- Items are ordered when each of them is. -/
theorem orderedItems_iff {items : List Value} :
    OrderedItems items ↔ ∀ item ∈ items, item.Ordered := by
  induction items with
  | nil => simp [OrderedItems]
  | cons item rest ih => rw [OrderedItems, ih, List.forall_mem_cons]

/-- Fields are ordered inside when the value of each is. -/
theorem orderedFields_iff {fields : List (String × Value)} :
    OrderedFields fields ↔ ∀ field ∈ fields, field.2.Ordered := by
  induction fields with
  | nil => simp [OrderedFields]
  | cons field rest ih => rw [OrderedFields, ih, List.forall_mem_cons]

/-- Items nest within a bound when each of them does. -/
theorem depthItems_le_iff {items : List Value} {bound : Nat} :
    depthItems items ≤ bound ↔ ∀ item ∈ items, item.depth ≤ bound := by
  induction items with
  | nil => simp [depthItems]
  | cons item rest ih => rw [depthItems, Nat.max_le, ih, List.forall_mem_cons]

/-- Fields nest within a bound when the value of each does. -/
theorem depthFields_le_iff {fields : List (String × Value)} {bound : Nat} :
    depthFields fields ≤ bound ↔ ∀ field ∈ fields, field.2.depth ≤ bound := by
  induction fields with
  | nil => simp [depthFields]
  | cons field rest ih => rw [depthFields, Nat.max_le, ih, List.forall_mem_cons]

end Value

namespace SnapshotRow

/-- The texts of a row, those of its content apart. -/
def texts (row : SnapshotRow) : List String :=
  row.handle.text :: row.tag :: row.fingerprint.toList

/-- Nesting of the content of a row, if it has any. -/
def depth (row : SnapshotRow) : Nat := row.value.elim 0 Value.depth

end SnapshotRow

namespace Codec

variable {codec : Codec} {room : Nat}

/-! ## What a library is trusted with -/

/-- The text, the array or the map that a value is itself is read back. -/
def KeepsForm (codec : Codec) : Value → Prop
  | .string text => codec.KeepsText text
  | .array items => codec.KeepsArray items.length
  | .object fields => codec.KeepsMap fields.length ∧ ∀ field ∈ fields, codec.KeepsText field.1
  | _ => True

/-- The texts, arrays and maps of a snapshot are read back. -/
structure Keeps (codec : Codec) (snapshot : Snapshot) : Prop where
  /-- The name of the table is read back. -/
  table : codec.KeepsText snapshot.table
  /-- The array of the rows is read back. -/
  count : codec.KeepsArray snapshot.rows.length
  /-- The texts of the rows are read back. -/
  texts : ∀ row ∈ snapshot.rows, ∀ text ∈ row.texts, codec.KeepsText text
  /-- The texts, arrays and maps of the contents are read back. -/
  values : ∀ row ∈ snapshot.rows, ∀ value ∈ row.value, ∀ part ∈ value.inside, codec.KeepsForm part

/-- Every content of a snapshot nests within the limit of the reader. -/
def Nests (codec : Codec) (snapshot : Snapshot) : Prop :=
  ∀ row ∈ snapshot.rows, row.depth ≤ codec.limit

instance (codec : Codec) : DecidablePred codec.Nests := fun snapshot =>
  inferInstanceAs (Decidable (∀ row ∈ snapshot.rows, row.depth ≤ codec.limit))

/-! ## Values -/

/-- A value is kept when its content is written and is read as its form demands. -/
theorem keepsAt_of_content (documented : codec.Documented) {form : String} {content : List UInt8}
    {value : Value} (written : codec.writeForm value = codec.writeTagged form (.ok content))
    (read : codec.ReadsContent content room form value) : (codec.values room).KeepsAt value := by
  obtain ⟨bytes, wrote⟩ := documented.writes_record [(form, content)]
  refine ⟨bytes, ?_, documented.reads_value read wrote⟩
  have derived : codec.writeValue value = codec.writeForm value := by rw [documented.writes_value]
  exact (derived.trans written).trans wrote

/-- An ordered value whose texts, arrays and maps are kept is read back where there is room for its
nesting. -/
theorem keepsAt_value (documented : codec.Documented) {value : Value} (ordered : value.Ordered)
    (kept : ∀ part ∈ value.inside, codec.KeepsForm part) (fits : value.depth ≤ room) :
    (codec.values room).KeepsAt value := by
  -- on the room: the values inside an array or an object are read where there is one less
  induction room using Nat.strongRecOn generalizing value with
  | ind room ih =>
    cases value with
    | null =>
      obtain ⟨bytes, wrote⟩ := documented.writes_null
      refine ⟨bytes, ?_, documented.reads_null wrote⟩
      rw [values, documented.writes_value]
      exact wrote
    | bool b =>
      obtain ⟨content, wrote, read⟩ := documented.keeps_bool b
      exact keepsAt_of_content documented (by rw [writeForm, wrote]) (.bool read)
    | int n =>
      obtain ⟨content, wrote, read⟩ := documented.keeps_int n
      exact keepsAt_of_content documented (by rw [writeForm, wrote]) (.int read)
    | float x =>
      obtain ⟨content, wrote, read⟩ := documented.keeps_double x
      exact keepsAt_of_content documented (by rw [writeForm, wrote]) (.float read)
    | string text =>
      obtain ⟨content, wrote, read⟩ : codec.KeepsText text :=
        kept (.string text) (List.mem_singleton_self _)
      exact keepsAt_of_content documented (by rw [writeForm, wrote]) (.string read)
    | array items =>
      rw [Value.Ordered, Value.orderedItems_iff] at ordered
      rw [Value.inside, List.forall_mem_cons] at kept
      obtain ⟨less, rfl⟩ : ∃ less, room = less + 1 := Nat.exists_eq_add_one.mpr (by
        rw [Value.depth] at fits
        omega)
      rw [Value.depth, Nat.add_le_add_iff_right, Value.depthItems_le_iff] at fits
      obtain ⟨count, inside⟩ := kept
      have each : ∀ item ∈ items, (codec.values less).KeepsAt item := fun item member =>
        ih less (Nat.lt_succ_self less) (ordered item member)
          (fun part within => inside part (Value.inside_subset_insideItems member within))
          (fits item member)
      obtain ⟨content, wrote, read⟩ := count (codec.values less) items rfl each
      have written : codec.writeArray codec.writeValue items = .ok content := wrote
      exact keepsAt_of_content documented (by rw [writeForm, written]) (.array read)
    | object fields =>
      rw [Value.Ordered, Value.orderedFields_iff] at ordered
      rw [Value.inside, List.forall_mem_cons] at kept
      obtain ⟨less, rfl⟩ : ∃ less, room = less + 1 := Nat.exists_eq_add_one.mpr (by
        rw [Value.depth] at fits
        omega)
      rw [Value.depth, Nat.add_le_add_iff_right, Value.depthFields_le_iff] at fits
      obtain ⟨ascending, ordered⟩ := ordered
      obtain ⟨⟨count, names⟩, inside⟩ := kept
      have each : ∀ field ∈ fields,
          codec.KeepsText field.1 ∧ (codec.values less).KeepsAt field.2 := fun field member =>
        ⟨names field member, ih less (Nat.lt_succ_self less) (ordered field member)
          (fun part within => inside part (Value.inside_subset_insideFields member within))
          (fits field member)⟩
      obtain ⟨content, wrote, read⟩ := count (codec.values less) fields rfl each
      have written : codec.writeMap codec.writeValue fields = .ok content := wrote
      have made : Value.ofPairs fields = .object fields := by
        rw [Value.ofPairs, Fields.ofPairs_of_ascending ascending]
      exact keepsAt_of_content documented (by rw [writeForm, written])
        (made ▸ ReadsContent.object read)

/-- What is written of a value is present. -/
theorem present_of_writeValue (documented : codec.Documented) {value : Value} {bytes : List UInt8}
    (wrote : codec.writeValue value = .ok bytes) : codec.Present bytes := by
  have tagged {form : String} {content : Except String (List UInt8)}
      (wrote : codec.writeTagged form content = .ok bytes) : codec.Present bytes := by
    cases content with
    | error complaint => cases wrote
    | ok content => exact documented.record_present wrote
  rw [documented.writes_value] at wrote
  cases value with
  | null => exact documented.text_present wrote
  | _ => exact tagged wrote

/-! ## Rows -/

/-- Something that may be absent is written and read back when it is kept and present if it is
there. -/
theorem keeps_optional {α : Type} {item : Format α} {thing : Option α}
    (kept : ∀ found ∈ thing, item.KeepsAt found)
    (present : ∀ found bytes, item.write found = .ok bytes → codec.Present bytes) :
    ∃ bytes, codec.writeOptional item.write thing = .ok bytes ∧
      codec.ReadsOptional item.read bytes thing := by
  cases thing with
  | none => exact ⟨codec.nothing, rfl, rfl⟩
  | some found =>
    obtain ⟨bytes, wrote, read⟩ := kept found rfl
    exact ⟨bytes, wrote, read, present found bytes wrote⟩

/-- A row is read back when its texts and its content are. -/
theorem keepsAt_row (documented : codec.Documented) {row : SnapshotRow}
    (texts : ∀ text ∈ row.texts, codec.KeepsText text)
    (content : ∀ value ∈ row.value, (codec.values codec.limit).KeepsAt value) :
    codec.rows.KeepsAt row := by
  rw [SnapshotRow.texts, List.forall_mem_cons, List.forall_mem_cons] at texts
  obtain ⟨⟨handle, wroteHandle, readHandle⟩, ⟨tag, wroteTag, readTag⟩, digits⟩ := texts
  obtain ⟨fingerprint, wroteFingerprint, readFingerprint⟩ :=
    keeps_optional (fun found member => digits found (Option.mem_toList.mpr member))
      fun _ _ wrote => documented.text_present wrote
  obtain ⟨value, wroteValue, readValue⟩ :=
    keeps_optional content fun _ _ wrote => present_of_writeValue documented wrote
  obtain ⟨bytes, wrote⟩ := documented.writes_record [("handle", handle), ("tag", tag),
    ("fingerprint", fingerprint), ("value", value)]
  refine ⟨bytes, ?_,
    documented.reads_row readHandle readTag readFingerprint readValue wrote⟩
  have written : codec.writeOptional codec.writeValue row.value = .ok value := wroteValue
  rw [rows, documented.writes_row]
  simp only [writeRowFields, wroteHandle, wroteTag, wroteFingerprint, written, bind, Except.bind,
    wrote]

/-! ## Snapshots -/

/-- A snapshot with ordered contents is written and read back. -/
theorem ofBytes_of_toBytes (documented : codec.Documented) {snapshot : Snapshot}
    (ordered : ∀ row ∈ snapshot.rows, ∀ value ∈ row.value, value.Ordered)
    (kept : codec.Keeps snapshot) (nests : codec.Nests snapshot) :
    ∃ bytes, snapshot.toBytes codec = .ok bytes ∧ Snapshot.ofBytes codec bytes = .ok snapshot := by
  have each : ∀ row ∈ snapshot.rows, codec.rows.KeepsAt row := by
    intro row member
    apply keepsAt_row documented (kept.texts row member)
    intro value listed
    have fits : value.depth ≤ codec.limit := by
      have bound := nests row member
      rwa [SnapshotRow.depth, Option.mem_def.mp listed, Option.elim_some] at bound
    exact keepsAt_value documented (ordered row member value listed)
      (kept.values row member value listed) fits
  obtain ⟨table, wroteTable, readTable⟩ := kept.table
  obtain ⟨entries, wroteEntries, readEntries⟩ := kept.count codec.rows snapshot.rows rfl each
  have written : codec.writeArray codec.writeRow snapshot.rows = .ok entries := wroteEntries
  obtain ⟨bytes, wrote⟩ := documented.writes_record [("table", table), ("entries", entries)]
  have read : codec.readSnapshot bytes = .ok snapshot :=
    documented.reads_snapshot readTable readEntries wrote
  refine ⟨bytes, ?_, ?_⟩
  · rw [Snapshot.toBytes, documented.writes_snapshot]
    simp only [writeSnapshotFields, wroteTable, written, bind, Except.bind, wrote]
    rfl
  · rw [Snapshot.ofBytes, read]
    rfl

end Codec

end ContentSpace
