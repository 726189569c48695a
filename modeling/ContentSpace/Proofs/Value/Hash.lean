import ContentSpace.Proofs.Value.Unified

/-!
# Hashing of values

Values are the same exactly when a hash takes in the same for them. What it takes in depends on a
value only through its unified form, so that a word for no number leaves no trace at any depth. In
the other direction it tells where each part ends, because the number of items or fields comes
before them: `hashWrites_append_inj` takes two values off the front of what a hash took in.
-/

namespace ContentSpace.Value

/-! ## Words for no number -/

mutual

/-- A hash takes in the same for a value and for its unified form. -/
theorem hashWrites_unified (value : Value) : value.unified.hashWrites = value.hashWrites := by
  match value with
  | null | bool _ | int _ | string _ => rfl
  | float x => rw [unified, hashWrites, hashWrites, Double.unified_unified]
  | array items =>
    rw [unified, hashWrites, hashWrites, hashWritesItems_unifiedItems items, unifiedItems_eq_map,
      List.length_map]
  | object fields =>
    rw [unified, hashWrites, hashWrites, hashWritesFields_unifiedFields fields,
      unifiedFields_eq_map, List.length_map]

/-- A hash takes in the same for items and for their unified forms. -/
theorem hashWritesItems_unifiedItems (items : List Value) :
    hashWritesItems (unifiedItems items) = hashWritesItems items := by
  match items with
  | [] => rfl
  | item :: rest =>
    rw [unifiedItems, hashWritesItems, hashWritesItems, hashWrites_unified item,
      hashWritesItems_unifiedItems rest]

/-- A hash takes in the same for fields and for their unified forms. -/
theorem hashWritesFields_unifiedFields (fields : List (String × Value)) :
    hashWritesFields (unifiedFields fields) = hashWritesFields fields := by
  match fields with
  | [] => rfl
  | (name, item) :: rest =>
    rw [unifiedFields, hashWritesFields, hashWritesFields, hashWrites_unified item,
      hashWritesFields_unifiedFields rest]

end

/-! ## Where parts end -/

mutual

/-- Two values for which a hash takes in beginnings of one row are the same, and leave the same
rest. -/
theorem hashWrites_append_inj (value other : Value) (rest tail : List HashWrite)
    (same : value.hashWrites ++ rest = other.hashWrites ++ tail) :
    value.unified = other.unified ∧ rest = tail := by
  match value with
  | null => cases other <;> simp_all [hashWrites, unified]
  | bool b => cases other <;> simp_all [hashWrites, unified]
  | int n => cases other <;> simp_all [hashWrites, unified]
  | float x =>
    cases other with
    | float y =>
      simp only [hashWrites, List.cons_append, List.nil_append, List.cons.injEq, true_and,
        HashWrite.word.injEq] at same
      have words : x.unified = y.unified := congrArg Double.mk same.1
      exact ⟨by rw [unified, unified, words], same.2⟩
    | _ => simp [hashWrites] at same
  | string text => cases other <;> simp_all [hashWrites, unified]
  | array items =>
    cases other with
    | array others =>
      -- the counts come first, so the items end at the same place
      simp only [hashWrites, List.cons_append, List.cons.injEq, true_and,
        HashWrite.count.injEq] at same
      obtain ⟨sameItems, sameRest⟩ :=
        hashWritesItems_append_inj items others rest tail same.1 same.2
      exact ⟨by rw [unified, unified, sameItems], sameRest⟩
    | _ => simp [hashWrites] at same
  | object fields =>
    cases other with
    | object others =>
      simp only [hashWrites, List.cons_append, List.cons.injEq, true_and,
        HashWrite.count.injEq] at same
      obtain ⟨sameFields, sameRest⟩ :=
        hashWritesFields_append_inj fields others rest tail same.1 same.2
      exact ⟨by rw [unified, unified, sameFields], sameRest⟩
    | _ => simp [hashWrites] at same

/-- As many items for which a hash takes in beginnings of one row are the same. -/
theorem hashWritesItems_append_inj (items others : List Value) (rest tail : List HashWrite)
    (count : items.length = others.length)
    (same : hashWritesItems items ++ rest = hashWritesItems others ++ tail) :
    unifiedItems items = unifiedItems others ∧ rest = tail := by
  match items, others with
  | [], [] => exact ⟨rfl, same⟩
  | item :: items, other :: others =>
    simp only [hashWritesItems, List.append_assoc] at same
    obtain ⟨sameItem, later⟩ := hashWrites_append_inj item other _ _ same
    obtain ⟨sameItems, sameRest⟩ :=
      hashWritesItems_append_inj items others rest tail (Nat.succ.inj count) later
    exact ⟨by rw [unifiedItems, unifiedItems, sameItem, sameItems], sameRest⟩

/-- As many fields for which a hash takes in beginnings of one row are the same. -/
theorem hashWritesFields_append_inj (fields others : List (String × Value))
    (rest tail : List HashWrite) (count : fields.length = others.length)
    (same : hashWritesFields fields ++ rest = hashWritesFields others ++ tail) :
    unifiedFields fields = unifiedFields others ∧ rest = tail := by
  match fields, others with
  | [], [] => exact ⟨rfl, same⟩
  | (name, item) :: fields, (label, other) :: others =>
    simp only [hashWritesFields, List.cons_append, List.append_assoc, List.cons.injEq,
      HashWrite.text.injEq] at same
    obtain ⟨sameItem, later⟩ := hashWrites_append_inj item other _ _ same.2
    obtain ⟨sameFields, sameRest⟩ :=
      hashWritesFields_append_inj fields others rest tail (Nat.succ.inj count) later
    exact ⟨by rw [unifiedFields, unifiedFields, same.1, sameItem, sameFields], sameRest⟩

end

/-- A hash takes in the same exactly for values that are equal once unified. -/
theorem hashWrites_eq_iff (value other : Value) :
    value.hashWrites = other.hashWrites ↔ value.unified = other.unified := by
  constructor
  · intro same
    have ends : value.hashWrites ++ [] = other.hashWrites ++ [] := by rw [same]
    exact (hashWrites_append_inj value other [] [] ends).1
  · intro same
    rw [← hashWrites_unified value, same, hashWrites_unified other]

/-! ## What values are made of -/

/-- Sameness is an equivalence of values, and a hash takes in the same exactly for values that are
the same. What a value was made of leaves no trace, at any depth: all words for no number are the
same, arrays of items that are the same are the same, and so are objects made of pairs in any order,
as long as each name has the same last value. -/
theorem equality_agrees_with_hashing :
    (∀ value : Value, (value == value) = true) ∧
    (∀ value other : Value, (value == other) = true → (other == value) = true) ∧
    (∀ value other third : Value, (value == other) = true → (other == third) = true →
      (value == third) = true) ∧
    (∀ value other : Value, (value == other) = true ↔ value.hashWrites = other.hashWrites) ∧
    (∀ x y : Double, x.isNaN = true → y.isNaN = true → (float x == float y) = true) ∧
    (∀ items others : List Value,
      List.Forall₂ (fun item other => (item == other) = true) items others →
        (array items == array others) = true) ∧
    ∀ left right : List (String × Value),
      (∀ name, Option.Rel (fun value other => (value == other) = true)
        (left.reverse.lookup name) (right.reverse.lookup name)) →
        (ofPairs left == ofPairs right) = true := by
  refine ⟨?_, ?_, ?_, ?_, ?_, ?_, ?_⟩
  · intro value
    exact (beq_iff value value).mpr rfl
  · intro value other same
    exact (beq_iff other value).mpr ((beq_iff value other).mp same).symm
  · intro value other third first second
    exact (beq_iff value third).mpr
      (((beq_iff value other).mp first).trans ((beq_iff other third).mp second))
  · intro value other
    rw [beq_iff, hashWrites_eq_iff]
  · intro x y noNumber noNumberToo
    apply (beq_iff _ _).mpr
    simp [unified, Double.unified, noNumber, noNumberToo]
  · intro items others same
    have equal := forall₂_beq_iff.mp same
    rw [← unifiedItems_eq_map, ← unifiedItems_eq_map] at equal
    exact (beq_iff _ _).mpr (congrArg array equal)
  · intro left right same
    exact beq_ofPairs_iff.mpr fun name => optionRel_beq_iff.mp (same name)

/-- An object that holds a word for no number inside an array and one with another such word, whose
fields were given in the other order and one of them twice, are the same, and a hash takes in the
same for both. -/
theorem equality_agrees_with_hashing_two_orders :
    let first : List (String × Value) :=
      [("a", .null), ("b", .int 2), ("a", .array [.float ⟨0x7ff8000000000000⟩])]
    let second : List (String × Value) :=
      [("a", .array [.float ⟨0xfff0000000000001⟩]), ("b", .int 2)]
    (∀ name, Option.Rel (fun value other => (value == other) = true)
      (first.reverse.lookup name) (second.reverse.lookup name)) ∧
      (ofPairs first == ofPairs second) = true ∧
      (ofPairs first).hashWrites = (ofPairs second).hashWrites := by
  intro first second
  obtain ⟨-, -, -, hashes, numbers, arrays, objects⟩ := equality_agrees_with_hashing
  have items :
      (array [.float ⟨0x7ff8000000000000⟩] == array [.float ⟨0xfff0000000000001⟩]) = true :=
    arrays _ _ (.cons (numbers _ _ (by decide) (by decide)) .nil)
  have same : ∀ name, Option.Rel (fun value other => (value == other) = true)
      (first.reverse.lookup name) (second.reverse.lookup name) := by
    intro name
    simp only [first, second, List.reverse_cons, List.reverse_nil, List.nil_append,
      List.cons_append, Fields.lookup_cons]
    by_cases isA : name = "a"
    · simp only [isA, if_true]
      exact .some items
    · by_cases isB : name = "b"
      · simp only [isB, if_true]
        exact .some (by decide)
      · simp only [isA, isB, if_false]
        exact .none
  have equal := objects first second same
  exact ⟨same, equal, (hashes _ _).mp equal⟩

end ContentSpace.Value
