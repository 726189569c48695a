import ContentSpace.CanonicalText.Basic
import ContentSpace.Proofs.NameMap
import ContentSpace.Proofs.Number.DoubleText
import ContentSpace.Value.Equality
import Mathlib.Data.List.Forall2

/-!
# Equality of values as equality of unified values

Two values are the same exactly when they become equal once every word for no number inside them is
replaced by the chosen one. Sameness is therefore an equivalence, and what does not depend on the
words for no number is equal for values that are the same.
-/

namespace ContentSpace

/-- The chosen word stays as it is. -/
@[simp] theorem Double.unified_unified (x : Double) : x.unified.unified = x.unified := by
  cases number : x.isNaN with
  | true => simp only [Double.unified, number, if_true]; decide
  | false => simp [Double.unified, number]

/-- All words for no number are written alike. -/
@[simp] theorem Double.text_unified (x : Double) : x.unified.text = x.text := by
  cases number : x.isNaN with
  | true => simp only [Double.unified, Double.text, number, if_true]; decide
  | false => simp [Double.unified, number]

namespace Value

mutual

/-- The value with every word for no number inside it replaced by the chosen one. -/
def unified : Value → Value
  | null => null
  | bool b => bool b
  | int n => int n
  | float x => float x.unified
  | string text => string text
  | array items => array (unifiedItems items)
  | object fields => object (unifiedFields fields)

/-- Each item unified. -/
def unifiedItems : List Value → List Value
  | [] => []
  | item :: rest => item.unified :: unifiedItems rest

/-- The value of each field unified. -/
def unifiedFields : List (String × Value) → List (String × Value)
  | [] => []
  | (name, item) :: rest => (name, item.unified) :: unifiedFields rest

end

mutual

/-- Two values are the same exactly when they are equal once unified. -/
theorem same_iff (left right : Value) :
    same left right = true ↔ left.unified = right.unified := by
  match left with
  | null => cases right <;> simp [same, unified]
  | bool b => cases right <;> simp [same, unified]
  | int n => cases right <;> simp [same, unified]
  | float x => cases right <;> simp [same, unified]
  | string text => cases right <;> simp [same, unified]
  | array items =>
    cases right with
    | array others => simpa [same, unified] using sameItems_iff items others
    | _ => simp [same, unified]
  | object fields =>
    cases right with
    | object others => simpa [same, unified] using sameFields_iff fields others
    | _ => simp [same, unified]

/-- Two lists hold the same items exactly when they are equal once unified. -/
theorem sameItems_iff (left right : List Value) :
    sameItems left right = true ↔ unifiedItems left = unifiedItems right := by
  match left, right with
  | [], [] => simp [sameItems, unifiedItems]
  | [], _ :: _ => simp [sameItems, unifiedItems]
  | _ :: _, [] => simp [sameItems, unifiedItems]
  | item :: rest, other :: others =>
    simp [sameItems, unifiedItems, same_iff item other, sameItems_iff rest others]

/-- Two lists hold the same fields exactly when they are equal once unified. -/
theorem sameFields_iff (left right : List (String × Value)) :
    sameFields left right = true ↔ unifiedFields left = unifiedFields right := by
  match left, right with
  | [], [] => simp [sameFields, unifiedFields]
  | [], _ :: _ => simp [sameFields, unifiedFields]
  | _ :: _, [] => simp [sameFields, unifiedFields]
  | (name, item) :: rest, (other, value) :: others =>
    simp [sameFields, unifiedFields, same_iff item value, sameFields_iff rest others]

end

/-- Sameness is what the equality sign of values stands for. -/
theorem beq_iff (left right : Value) : (left == right) = true ↔ left.unified = right.unified :=
  same_iff left right

mutual

/-- Unifying once is enough. -/
@[simp] theorem unified_unified (value : Value) : value.unified.unified = value.unified := by
  match value with
  | null | bool _ | int _ | string _ => rfl
  | float x => simp [unified]
  | array items => simp [unified, unifiedItems_unifiedItems items]
  | object fields => simp [unified, unifiedFields_unifiedFields fields]

/-- Unifying items once is enough. -/
theorem unifiedItems_unifiedItems (items : List Value) :
    unifiedItems (unifiedItems items) = unifiedItems items := by
  match items with
  | [] => rfl
  | item :: rest => simp [unifiedItems, unified_unified item, unifiedItems_unifiedItems rest]

/-- Unifying fields once is enough. -/
theorem unifiedFields_unifiedFields (fields : List (String × Value)) :
    unifiedFields (unifiedFields fields) = unifiedFields fields := by
  match fields with
  | [] => rfl
  | (name, item) :: rest =>
    simp [unifiedFields, unified_unified item, unifiedFields_unifiedFields rest]

end

/-- Unifying leaves the positions of items as they are. -/
theorem unifiedItems_eq_map (items : List Value) : unifiedItems items = items.map unified := by
  induction items with
  | nil => rfl
  | cons item rest ih => rw [unifiedItems, ih, List.map_cons]

/-- Unifying leaves the names of fields as they are. -/
theorem unifiedFields_eq_map (fields : List (String × Value)) :
    unifiedFields fields = fields.map fun field => (field.1, field.2.unified) := by
  induction fields with
  | nil => rfl
  | cons field rest ih => rw [unifiedFields, ih, List.map_cons]

/-- Unified fields ascend exactly when the fields do. -/
theorem ascending_unifiedFields (fields : List (String × Value)) :
    Fields.Ascending (unifiedFields fields) ↔ Fields.Ascending fields := by
  rw [unifiedFields_eq_map]
  exact List.pairwise_map

mutual

/-- Unifying does not change whether objects list their names in order. -/
theorem ordered_unified (value : Value) : value.unified.Ordered ↔ value.Ordered := by
  match value with
  | null | bool _ | int _ | float _ | string _ => rfl
  | array items => exact orderedItems_unifiedItems items
  | object fields =>
    exact and_congr (ascending_unifiedFields fields) (orderedFields_unifiedFields fields)

/-- Unifying items does not change whether they are ordered. -/
theorem orderedItems_unifiedItems (items : List Value) :
    OrderedItems (unifiedItems items) ↔ OrderedItems items := by
  match items with
  | [] => rfl
  | item :: rest => exact and_congr (ordered_unified item) (orderedItems_unifiedItems rest)

/-- Unifying fields does not change whether their values are ordered. -/
theorem orderedFields_unifiedFields (fields : List (String × Value)) :
    OrderedFields (unifiedFields fields) ↔ OrderedFields fields := by
  match fields with
  | [] => rfl
  | (name, item) :: rest =>
    exact and_congr (ordered_unified item) (orderedFields_unifiedFields rest)

end

/-- Looking a name up in unified fields. -/
theorem lookup_unifiedFields (fields : List (String × Value)) (name : String) :
    (unifiedFields fields).lookup name = (fields.lookup name).map unified := by
  induction fields with
  | nil => rfl
  | cons field rest ih =>
    rw [unifiedFields, Fields.lookup_cons, Fields.lookup_cons, ih]
    split <;> rfl

/-- Values are pairwise the same when they are equal once unified. -/
theorem forall₂_beq_iff {values others : List Value} :
    List.Forall₂ (fun value other => (value == other) = true) values others ↔
      values.map unified = others.map unified := by
  simp only [beq_iff]
  rw [← List.forall₂_eq_eq_eq, List.forall₂_map_left_iff, List.forall₂_map_right_iff]

/-- Among values that are pairwise the same as others, each is the same as one of them. -/
theorem exists_beq_of_mem {value : Value} {values others : List Value}
    (same : List.Forall₂ (fun value other => (value == other) = true) values others)
    (member : value ∈ values) : ∃ other ∈ others, (value == other) = true := by
  have unified : value.unified ∈ others.map unified := by
    rw [← forall₂_beq_iff.mp same]
    exact List.mem_map_of_mem member
  obtain ⟨other, inside, equal⟩ := List.mem_map.mp unified
  exact ⟨other, inside, (beq_iff value other).mpr equal.symm⟩

/-- Two values that may be missing are both missing or the same exactly when they are equal once
unified. -/
theorem optionRel_beq_iff {value other : Option Value} :
    Option.Rel (fun value other => (value == other) = true) value other ↔
      value.map unified = other.map unified := by
  cases value <;> cases other <;> simp [beq_iff]

/-- Objects made of pairs are the same exactly when every name has the same last value among the
pairs. -/
theorem beq_ofPairs_iff {left right : List (String × Value)} :
    (ofPairs left == ofPairs right) = true ↔
      ∀ name, (left.reverse.lookup name).map unified = (right.reverse.lookup name).map unified := by
  have looked (pairs : List (String × Value)) (name : String) :
      (unifiedFields (Fields.ofPairs pairs)).lookup name =
        (pairs.reverse.lookup name).map unified := by
    rw [lookup_unifiedFields]
    exact congrArg (Option.map unified) (NameMap.get?_ofPairs pairs name)
  rw [beq_iff, ofPairs, ofPairs, unified, unified, object.injEq]
  constructor
  · intro same name
    rw [← looked, same, looked]
  · intro same
    have ascending (pairs : List (String × Value)) :
        Fields.Ascending (unifiedFields (Fields.ofPairs pairs)) :=
      (ascending_unifiedFields _).mpr (Fields.ascending_ofPairs pairs)
    have maps : NameMap.mk _ (ascending left) = NameMap.mk _ (ascending right) := by
      apply NameMap.ext_get?
      intro name
      rw [NameMap.get?, NameMap.get?, looked, looked, same]
    exact congrArg NameMap.fields maps

/-- A value is the same as its unified form. -/
theorem unified_beq (value : Value) : (value.unified == value) = true :=
  (beq_iff _ _).mpr (unified_unified value)

end Value

namespace CanonicalText

mutual

/-- The canonical text of a value does not depend on its words for no number. -/
theorem encode_unified (value : Value) : encode value.unified = encode value := by
  match value with
  | .null | .bool _ | .int _ | .string _ => rfl
  | .float x => rw [Value.unified, encode, encode, Double.text_unified]
  | .array items => rw [Value.unified, encode, encode, encodeItems_unifiedItems items]
  | .object fields => rw [Value.unified, encode, encode, encodeFields_unifiedFields fields]

/-- The canonical texts of items do not depend on their words for no number. -/
theorem encodeItems_unifiedItems (items : List Value) :
    encodeItems (Value.unifiedItems items) = encodeItems items := by
  match items with
  | [] => rfl
  | item :: rest =>
    rw [Value.unifiedItems, encodeItems, encodeItems, encode_unified item,
      encodeItems_unifiedItems rest]

/-- The canonical texts of fields do not depend on their words for no number. -/
theorem encodeFields_unifiedFields (fields : List (String × Value)) :
    encodeFields (Value.unifiedFields fields) = encodeFields fields := by
  match fields with
  | [] => rfl
  | (name, item) :: rest =>
    rw [Value.unifiedFields, encodeFields, encodeFields, encode_unified item,
      encodeFields_unifiedFields rest]

end

end CanonicalText

end ContentSpace
