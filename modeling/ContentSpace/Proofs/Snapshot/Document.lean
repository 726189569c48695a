import ContentSpace.Proofs.Handle
import ContentSpace.Proofs.Value.Unified
import ContentSpace.Snapshot.Basic

/-!
# Snapshots as values

A snapshot and its value determine each other: two snapshots make the same value exactly when they
are the same. A row is an object of up to four fields, so it is read off its value by looking names
up, and a content that the row lacks is a name that is not bound, whereas null is bound.
-/

namespace ContentSpace

open Value

/-- Two contents that may be missing are the same exactly when they are equal once unified. -/
theorem sameOptional_iff {left right : Option Value} :
    sameOptional left right = true ↔ left.map unified = right.map unified := by
  cases left <;> cases right <;> simp [sameOptional, beq_iff]

namespace SnapshotRow

variable {left right : SnapshotRow}

/-- Rows are the same when all of their parts are. -/
theorem beq_iff : (left == right) = true ↔
    left.handle = right.handle ∧ left.tag = right.tag ∧ left.fingerprint = right.fingerprint ∧
      left.value.map unified = right.value.map unified := by
  rw [← sameOptional_iff, ← and_assoc, ← and_assoc, ← beq_iff_eq (a := left.fingerprint),
    ← beq_iff_eq (a := left.tag), ← beq_iff_eq (a := left.handle), ← Bool.and_eq_true,
    ← Bool.and_eq_true, ← Bool.and_eq_true]
  exact Iff.rfl

/-- What a row as a value has under a name. -/
def field? (row : SnapshotRow) (name : String) : Option Value :=
  if name = "value" then row.value
  else if name = "fingerprint" then row.fingerprint.map Value.string
  else if name = "tag" then some (.string row.tag)
  else if name = "handle" then some (.string row.handle.text)
  else none

/-- The pairs that a row makes bind a name to what the row has under it. A part that is missing
hides no other one. -/
theorem lookup_pairs (row : SnapshotRow) (name : String) :
    ([("handle", Value.string row.handle.text), ("tag", .string row.tag)] ++
      (row.fingerprint.toList.map fun hex => ("fingerprint", Value.string hex)) ++
      row.value.toList.map fun value => ("value", value)).reverse.lookup name =
        row.field? name := by
  obtain ⟨handle, tag, fingerprint, value⟩ := row
  cases fingerprint <;> cases value <;>
    simp only [field?, Option.toList, List.map_cons, List.map_nil, List.append_nil,
      List.cons_append, List.nil_append, List.reverse_cons, List.reverse_nil,
      Fields.lookup_cons, Option.map_some, Option.map_none, List.lookup_nil]
  all_goals
    by_cases isValue : name = "value"
    · simp [isValue]
    · by_cases isPrint : name = "fingerprint" <;> simp [isValue, isPrint]

/-- Two rows make the same value exactly when they have the same under every name. -/
theorem toValue_beq_iff_field? : (left.toValue == right.toValue) = true ↔
    ∀ name, (left.field? name).map unified = (right.field? name).map unified := by
  rw [toValue, toValue, beq_ofPairs_iff]
  simp only [lookup_pairs]

/-- Two rows make the same value exactly when they are the same. -/
theorem toValue_beq_iff : (left.toValue == right.toValue) = true ↔ (left == right) = true := by
  rw [toValue_beq_iff_field?, beq_iff]
  constructor
  · intro same
    have handles := same "handle"
    have tags := same "tag"
    have prints := same "fingerprint"
    have contents := same "value"
    simp only [field?, String.reduceEq, if_false, if_true, Option.map_some, unified,
      Option.some.injEq, Value.string.injEq] at handles tags
    simp only [field?, String.reduceEq, if_false, if_true] at prints contents
    refine ⟨Handle.text_inj handles, tags, ?_, contents⟩
    cases first : left.fingerprint <;> cases second : right.fingerprint <;>
      simp_all [unified]
  · rintro ⟨handles, tags, prints, contents⟩ name
    simp only [field?, handles, tags, prints]
    split
    · exact contents
    · rfl

/-- A row without content makes another value than the row whose content is null. -/
theorem toValue_none_ne_null (row : SnapshotRow) :
    ({ row with value := none }.toValue == { row with value := some .null }.toValue) = false := by
  rw [← Bool.not_eq_true, toValue_beq_iff, beq_iff]
  simp

end SnapshotRow

namespace Snapshot

variable {left right : Snapshot}

/-- Snapshots are the same when they have the same name and the same rows. -/
theorem beq_iff : (left == right) = true ↔
    left.table = right.table ∧ (left.rows == right.rows) = true := by
  rw [← beq_iff_eq (a := left.table), ← Bool.and_eq_true]
  exact Iff.rfl

/-- Lists of rows make the same values exactly when they are the same, row by row. -/
theorem toValue_rows_iff (rows others : List SnapshotRow) :
    (rows.map SnapshotRow.toValue).map unified = (others.map SnapshotRow.toValue).map unified ↔
      (rows == others) = true := by
  induction rows generalizing others with
  | nil => cases others <;> simp
  | cons row rest ih =>
    cases others with
    | nil => simp
    | cons other others =>
      rw [List.map_cons, List.map_cons, List.map_cons, List.map_cons, List.cons.injEq, ih,
        ← Value.beq_iff, SnapshotRow.toValue_beq_iff, List.cons_beq_cons, Bool.and_eq_true]

/-- What a snapshot as a value has under a name. -/
def field? (snapshot : Snapshot) (name : String) : Option Value :=
  if name = "entries" then some (.array (snapshot.rows.map SnapshotRow.toValue))
  else if name = "table" then some (.string snapshot.table)
  else none

/-- Two snapshots make the same value exactly when they have the same under every name. -/
theorem toValue_beq_iff_field? : (left.toValue == right.toValue) = true ↔
    ∀ name, (left.field? name).map unified = (right.field? name).map unified := by
  rw [toValue, toValue, beq_ofPairs_iff]
  simp [Fields.lookup_cons, field?]

/-- Two snapshots make the same value exactly when they are the same. -/
theorem toValue_beq (left right : Snapshot) :
    (left.toValue == right.toValue) = (left == right) := by
  rw [Bool.eq_iff_iff, toValue_beq_iff_field?, beq_iff, ← toValue_rows_iff]
  constructor
  · intro same
    have tables := same "table"
    have entries := same "entries"
    simp only [field?, String.reduceEq, if_false, if_true, Option.map_some, unified,
      Option.some.injEq, Value.string.injEq, Value.array.injEq, unifiedItems_eq_map]
      at tables entries
    exact ⟨tables, entries⟩
  · rintro ⟨tables, entries⟩ name
    simp only [field?, tables, apply_ite (Option.map unified), Option.map_some, unified,
      unifiedItems_eq_map, entries]

end Snapshot

end ContentSpace
