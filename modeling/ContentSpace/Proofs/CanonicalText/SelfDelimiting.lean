import ContentSpace.Proofs.CanonicalText.RoundTrip

/-!
# Canonical text shows where it ends

Two texts that begin with the canonical texts of two values can only be equal when the values are
the same and the texts go on alike. This holds for all values, also for those whose objects do not
list their names in order and which no reader would accept: numbers and text are told apart by
reading them, arrays and objects item by item.
-/

namespace ContentSpace.CanonicalText

/-- A reader reads one value and leaves one rest. -/
theorem reads_unique {α : Type} {source rest tail : List Char}
    {outcome : Except Refusal (Taken α source)} {value other : α}
    (read : Reads outcome value rest) (again : Reads outcome other tail) :
    value = other ∧ rest = tail := by
  obtain ⟨suffix, found⟩ := read
  rw [found, reads_ok] at again
  exact again

/-- Two quoted texts that begin one text are the same, and leave the same rest. -/
theorem encodeString_append_inj {text other : String} {rest tail : List Char}
    (same : encodeString text ++ rest = encodeString other ++ tail) :
    text = other ∧ rest = tail := by
  obtain ⟨source, cons, read⟩ := reads_encodeString text 0 rest
  obtain ⟨again, consAgain, readAgain⟩ := reads_encodeString other 0 tail
  rw [← same, cons] at consAgain
  cases consAgain
  exact reads_unique read readAgain

/-- Only an array is written from the opening mark of arrays on. -/
theorem eq_array_of_encode {value : Value} {rest : List Char}
    (opens : encode value = arrayOpen :: rest) : ∃ items, value = .array items := by
  cases value with
  | array items => exact ⟨items, rfl⟩
  | bool b =>
    cases b <;> exact absurd (List.cons.inj opens).1 (by decide)
  | _ => exact absurd (List.cons.inj opens).1 (by decide)

/-- Only an object is written from the opening mark of objects on. -/
theorem eq_object_of_encode {value : Value} {rest : List Char}
    (opens : encode value = objectOpen :: rest) : ∃ fields, value = .object fields := by
  cases value with
  | object fields => exact ⟨fields, rfl⟩
  | bool b =>
    cases b <;> exact absurd (List.cons.inj opens).1 (by decide)
  | _ => exact absurd (List.cons.inj opens).1 (by decide)

/-- Two texts that begin alike begin with the same character. -/
theorem encode_cons_of_append {value : Value} {c : Char} {rest tail : List Char}
    (same : c :: rest = encode value ++ tail) : ∃ body, encode value = c :: body := by
  obtain ⟨d, body, cons, -⟩ := encode_cons value
  rw [cons, List.cons_append] at same
  rw [(List.cons.inj same).1]
  exact ⟨body, cons⟩

/-- A value without nesting is read from its text, whatever follows. -/
theorem reads_encode_flat {value : Value} (flat : value.depth = 0) (ordered : value.Ordered)
    (rest : List Char) :
    Reads (readValue 0 0 (encode value ++ rest)) value.unified rest :=
  reads_encode value ordered 0 0 (by omega) rest

/-- A value is an array, an object, or without nesting. -/
theorem array_or_object_or_flat (value : Value) :
    (∃ items, value = .array items) ∨ (∃ fields, value = .object fields) ∨
      (value.depth = 0 ∧ value.Ordered) := by
  cases value with
  | array items => exact .inl ⟨items, rfl⟩
  | object fields => exact .inr (.inl ⟨fields, rfl⟩)
  | _ => exact .inr (.inr ⟨rfl, trivial⟩)

/-- Two values of which one is without nesting are the same when their texts begin one text. -/
theorem encode_append_inj_flat {value other : Value} {rest tail : List Char}
    (flat : value.depth = 0) (ordered : value.Ordered)
    (same : encode value ++ rest = encode other ++ tail) :
    value.unified = other.unified ∧ rest = tail := by
  have read := reads_encode_flat flat ordered rest
  rcases array_or_object_or_flat other with ⟨items, rfl⟩ | ⟨fields, rfl⟩ | ⟨flatOther, orderedOther⟩
  · obtain ⟨body, opens⟩ := encode_cons_of_append (c := arrayOpen) same.symm
    obtain ⟨items, rfl⟩ := eq_array_of_encode opens
    simp [Value.depth] at flat
  · obtain ⟨body, opens⟩ := encode_cons_of_append (c := objectOpen) same.symm
    obtain ⟨fields, rfl⟩ := eq_object_of_encode opens
    simp [Value.depth] at flat
  · rw [same] at read
    exact reads_unique read (reads_encode_flat flatOther orderedOther tail)

mutual

/-- Two values whose texts begin one text are the same, and leave the same rest. -/
theorem encode_append_inj (value other : Value) (rest tail : List Char)
    (same : encode value ++ rest = encode other ++ tail) :
    value.unified = other.unified ∧ rest = tail := by
  match value with
  | .array items =>
    obtain ⟨body, opens⟩ := encode_cons_of_append (c := arrayOpen) same
    obtain ⟨others, rfl⟩ := eq_array_of_encode opens
    simp only [encode, List.cons_append, List.append_assoc, List.cons.injEq, true_and] at same
    obtain ⟨sameItems, sameRest⟩ := encodeItems_append_inj items others rest tail same
    exact ⟨by rw [Value.unified, Value.unified, sameItems], sameRest⟩
  | .object fields =>
    obtain ⟨body, opens⟩ := encode_cons_of_append (c := objectOpen) same
    obtain ⟨others, rfl⟩ := eq_object_of_encode opens
    simp only [encode, List.cons_append, List.append_assoc, List.cons.injEq, true_and] at same
    obtain ⟨sameFields, sameRest⟩ := encodeFields_append_inj fields others rest tail same
    exact ⟨by rw [Value.unified, Value.unified, sameFields], sameRest⟩
  | .null | .bool _ | .int _ | .float _ | .string _ =>
    -- Nothing is nested here, so reading at limit zero tells the values apart.
    exact encode_append_inj_flat rfl trivial same

/-- Items whose texts begin one text up to a closing mark are the same. -/
theorem encodeItems_append_inj (items others : List Value) (rest tail : List Char)
    (same : encodeItems items ++ ([arrayClose] ++ rest) =
      encodeItems others ++ ([arrayClose] ++ tail)) :
    Value.unifiedItems items = Value.unifiedItems others ∧ rest = tail := by
  match items, others with
  | [], [] => simpa [encodeItems] using same
  | [], other :: others =>
    obtain ⟨c, body, cons, opens⟩ := encode_cons other
    simp only [encodeItems, cons, List.cons_append, List.nil_append, List.cons.injEq] at same
    exact absurd same.1.symm opens
  | item :: items, [] =>
    obtain ⟨c, body, cons, opens⟩ := encode_cons item
    simp only [encodeItems, cons, List.cons_append, List.nil_append, List.cons.injEq] at same
    exact absurd same.1 opens
  | item :: items, other :: others =>
    simp only [encodeItems, List.append_assoc] at same
    obtain ⟨sameItem, later⟩ := encode_append_inj item other _ _ same
    obtain ⟨sameItems, sameRest⟩ := encodeItems_append_inj items others rest tail
      (by simpa using later)
    exact ⟨by rw [Value.unifiedItems, Value.unifiedItems, sameItem, sameItems], sameRest⟩

/-- Fields whose texts begin one text up to a closing mark are the same. -/
theorem encodeFields_append_inj (fields others : List (String × Value)) (rest tail : List Char)
    (same : encodeFields fields ++ ([objectClose] ++ rest) =
      encodeFields others ++ ([objectClose] ++ tail)) :
    Value.unifiedFields fields = Value.unifiedFields others ∧ rest = tail := by
  have quoteOpens : quote ≠ objectClose := by decide
  match fields, others with
  | [], [] => simpa [encodeFields] using same
  | [], (name, other) :: others =>
    simp only [encodeFields, encodeString, List.cons_append, List.nil_append,
      List.cons.injEq] at same
    exact absurd same.1.symm quoteOpens
  | (name, item) :: fields, [] =>
    simp only [encodeFields, encodeString, List.cons_append, List.nil_append,
      List.cons.injEq] at same
    exact absurd same.1 quoteOpens
  | (name, item) :: fields, (label, other) :: others =>
    simp only [encodeFields, List.append_assoc] at same
    obtain ⟨sameName, after⟩ := encodeString_append_inj same
    obtain ⟨sameItem, later⟩ := encode_append_inj item other _ _ after
    obtain ⟨sameFields, sameRest⟩ := encodeFields_append_inj fields others rest tail
      (by simpa using later)
    exact ⟨by rw [Value.unifiedFields, Value.unifiedFields, sameName, sameItem, sameFields],
      sameRest⟩

end

end ContentSpace.CanonicalText
