import ContentSpace.Proofs.Fields
import ContentSpace.Proofs.NameMap
import ContentSpace.Proofs.Number.Numeral
import ContentSpace.Proofs.Value.Unified
import ContentSpace.Space.Composite
import Mathlib.Data.List.Forall2

/-!
# Numbered fields

The name of a field is read back as the position it was made for, so the fields of a composite are
told apart by position. An object lists them in the order of their names, with the tenth before the
second; sorting by position restores the order of the contents. All of this depends on values only
up to sameness, because the names of fields do not change when values are unified.
-/

namespace ContentSpace

namespace Space

variable {fields : List (String × Value)} {contents : List Value} {position other : Nat}
  {content value : Value}

/-! ## Names of positions -/

/-- A name is read back as the position it was made for. -/
theorem position?_positionName (small : position < UInt64.size) :
    position? (positionName position) = some position := by
  have numeral := Numeral.isNumeral_digits position
  have read := Numeral.value_digits position
  cases shape : Numeral.digits position with
  | nil => exact absurd shape (Numeral.digits_ne_nil position)
  | cons first rest =>
    -- A digit is no sign, so nothing is skipped before the number is read.
    have unsigned : first ≠ '+' := by
      rintro rfl
      have digital : ('+').isDigit = true :=
        Numeral.isDigit_of_mem_digits (by rw [shape]; exact List.mem_cons_self)
      cases digital
    rw [shape] at numeral read
    simp [position?, positionName, shape, unsigned, numeral, read, small]

/-- Different positions have different names. -/
theorem positionName_inj : positionName position = positionName other ↔ position = other := by
  constructor
  · intro same
    exact Numeral.digits_inj.mp (List.cons.inj (String.ofList_injective same)).2
  · exact congrArg positionName

/-! ## Composites -/

/-- Contents with the names of their positions. -/
def numbered (contents : List Value) : List (String × Value) :=
  contents.zipIdx.map fun (content, position) => (positionName position, content)

/-- The object whose numbered fields are contents. -/
def composite (contents : List Value) : Value := .ofPairs (numbered contents)

/-- The content with the name of a position is the one at the position. -/
theorem mem_numbered_iff :
    (positionName position, content) ∈ numbered contents ↔ contents[position]? = some content := by
  simp only [numbered, List.mem_map, Prod.exists, Prod.mk.injEq, List.mem_zipIdx_iff_getElem?]
  constructor
  · rintro ⟨_, index, here, same, rfl⟩
    rw [← positionName_inj.mp same, here]
  · exact fun here => ⟨content, position, here, rfl, rfl⟩

/-- The numbered fields of a composite are its contents with the names of their positions. -/
theorem ofPairs_numbered_perm (contents : List Value) :
    (Fields.ofPairs (numbered contents)).Perm (numbered contents) := by
  apply Fields.ofPairs_perm
  rw [numbered, List.pairwise_map]
  have positions : contents.zipIdx.Pairwise fun left right => left.2 ≠ right.2 := by
    rw [← List.pairwise_map, List.zipIdx_map_snd]
    exact List.nodup_range'
  exact positions.imp fun apart same => apart (positionName_inj.mp same)

/-- Looking the name of a position up in a composite gives the content at the position. -/
theorem lookup_composite (contents : List Value) (position : Nat) :
    (Fields.ofPairs (numbered contents)).lookup (positionName position) = contents[position]? := by
  apply Option.ext
  intro content
  rw [← mem_numbered_iff, ← (ofPairs_numbered_perm contents).mem_iff]
  exact (@NameMap.mem_fields_iff _ (NameMap.ofPairs (numbered contents)) _ _).symm

/-- Sorting by position gives the arrangement in which the positions ascend. -/
theorem mergeSort_eq_of_perm {parts sorted : List (Nat × Value)} (arranged : parts.Perm sorted)
    (ascending : (sorted.map Prod.fst).Pairwise (· < ·)) :
    (parts.mergeSort fun left right => left.1 ≤ right.1) = sorted := by
  have permuted := (parts.mergeSort_perm fun left right => left.1 ≤ right.1).trans arranged
  have distinct : (sorted.map Prod.fst).Nodup := ascending.imp Nat.ne_of_lt
  have ordered := @List.pairwise_mergeSort (Nat × Value) (fun left right => left.1 ≤ right.1)
    (by simpa using fun _ _ _ => Nat.le_trans) (by simpa using fun _ _ => Nat.le_total _ _) parts
  simp only [decide_eq_true_eq] at ordered
  refine permuted.eq_of_pairwise ?_ ordered ?_
  · intro left right member inside below above
    exact List.inj_on_of_nodup_map distinct (permuted.mem_iff.mp member) inside
      (Nat.le_antisymm below above)
  · rw [List.pairwise_map] at ascending
    exact ascending.imp Nat.le_of_lt

/-- The parts of fields that are contents with the names of their positions, in any order, are the
contents in their order. -/
theorem numberedParts_of_perm (arranged : fields.Perm (numbered contents))
    (small : contents.length ≤ UInt64.size) : numberedParts fields = contents := by
  have read : (numbered contents).filterMap (fun field => (position? field.1).map (·, field.2)) =
      contents.zipIdx.map Prod.swap := by
    rw [numbered, List.filterMap_map, ← List.filterMap_eq_map]
    apply List.filterMap_congr
    rintro ⟨content, position⟩ member
    have bound : position < contents.length := by
      simpa using (List.mem_zipIdx member).2.1
    simp [position?_positionName (Nat.lt_of_lt_of_le bound small)]
  have parts := arranged.filterMap fun field => (position? field.1).map (·, field.2)
  rw [read] at parts
  have ascending : ((contents.zipIdx.map Prod.swap).map Prod.fst).Pairwise (· < ·) := by
    rw [List.map_map, show Prod.fst ∘ Prod.swap = @Prod.snd Value Nat from rfl,
      List.zipIdx_map_snd]
    exact List.pairwise_lt_range'
  rw [numberedParts, mergeSort_eq_of_perm parts ascending, List.map_map,
    show Prod.snd ∘ Prod.swap = @Prod.fst Value Nat from rfl, List.zipIdx_map_fst]

/-- The parts of fields are unified with the fields. -/
theorem numberedParts_unifiedFields (fields : List (String × Value)) :
    numberedParts (Value.unifiedFields fields) = (numberedParts fields).map Value.unified := by
  have read : (Value.unifiedFields fields).filterMap
        (fun field => (position? field.1).map (·, field.2)) =
      (fields.filterMap fun field => (position? field.1).map (·, field.2)).map
        (Prod.map id Value.unified) := by
    rw [Value.unifiedFields_eq_map, List.filterMap_map, List.map_filterMap]
    simp only [Function.comp_def, Option.map_map, Prod.map_apply, id_eq]
  have sorted (parts : List (Nat × Value)) :
      (parts.mergeSort fun left right => left.1 ≤ right.1).map (Prod.map id Value.unified) =
        (parts.map (Prod.map id Value.unified)).mergeSort fun left right => left.1 ≤ right.1 :=
    List.map_mergeSort fun _ _ _ _ => rfl
  rw [numberedParts, numberedParts, read, ← sorted, List.map_map, List.map_map]
  rfl

/-- A value that is the same as a composite is an object whose parts are the same as the contents,
and whose fields are the same as the contents at their positions. -/
theorem exists_of_beq_composite (same : (value == composite contents) = true) :
    ∃ fields, value = .object fields ∧
      (contents.length ≤ UInt64.size → List.Forall₂
        (fun part content => (part == content) = true) (numberedParts fields) contents) ∧
      ∀ position, (fields.lookup (positionName position)).map Value.unified =
        contents[position]?.map Value.unified := by
  rw [Value.beq_iff, composite, Value.ofPairs, Value.unified] at same
  cases value with
  | object fields =>
    rw [Value.unified, Value.object.injEq] at same
    refine ⟨fields, rfl, ?_, ?_⟩
    · intro small
      rw [Value.forall₂_beq_iff, ← numberedParts_unifiedFields, same, numberedParts_unifiedFields,
        numberedParts_of_perm (ofPairs_numbered_perm contents) small]
    · intro position
      rw [← Value.lookup_unifiedFields, same, Value.lookup_unifiedFields, lookup_composite]
  | _ => simp [Value.unified] at same

end Space

end ContentSpace
