import ContentSpace.Proofs.CanonicalText.Nested

/-!
# Reading undoes writing, up to the nesting limit

The canonical text of a value is read back as the same value, whatever text follows, when arrays and
objects nest no deeper than the limit allows; a value that nests deeper is refused for that reason
alone. The statements go through at any depth that reading has already reached, since reading goes
in one level at a time. What is read has every word for no number replaced by the chosen one, which
is the same value.
-/

namespace ContentSpace.CanonicalText

/-- Canonical text starts with a character that closes no array. -/
theorem encode_cons (value : Value) :
    ∃ c rest, encode value = c :: rest ∧ c ≠ arrayClose := by
  cases value with
  | bool b => cases b <;> exact ⟨_, _, rfl, by decide⟩
  | _ => exact ⟨_, _, rfl, by decide⟩

/-- Text is read from its canonical text, whatever follows. -/
theorem reads_encodeString (text : String) (depth : Nat) (rest : List Char) :
    ∃ source, encodeString text ++ rest = quote :: source ∧
      Reads (readString (quote :: source) depth source) text rest := by
  refine ⟨encodeChars text.toList ++ quote :: rest, ?_, reads_string_iff.mpr ?_⟩ <;>
    simp [encodeString]

mutual

/-- A value that does not nest too deep is read back, whatever follows. -/
theorem reads_encode (value : Value) (ordered : value.Ordered) (limit depth : Nat)
    (fits : depth + value.depth ≤ limit) (rest : List Char) :
    Reads (readValue limit depth (encode value ++ rest)) value.unified rest := by
  match value with
  | .null => simp [encode, Value.unified]
  | .bool true => simp [encode, Value.unified]
  | .bool false => simp [encode, Value.unified]
  | .int n => simp [encode, Value.unified, reads_integer_iff]
  | .float x =>
    simp only [encode, Value.unified, List.cons_append, List.append_assoc, List.nil_append,
      reads_readValue_cons, readFrom_float, reads_float_iff]
    exact ⟨x, rfl, rfl⟩
  | .string text =>
    obtain ⟨source, cons, -⟩ := reads_encodeString text depth rest
    rw [encode, cons, reads_readValue_cons, reads_from_quote]
    exact ⟨text, rfl, cons.symm⟩
  | .array items =>
    rw [Value.depth] at fits
    rw [encode, List.cons_append, List.cons_append, List.append_assoc, reads_readValue_cons,
      reads_from_array]
    exact ⟨by omega, _, reads_encodeItems items ordered limit (depth + 1) (by omega) rest, rfl⟩
  | .object fields =>
    rw [Value.depth] at fits
    rw [encode, List.cons_append, List.cons_append, List.append_assoc, reads_readValue_cons,
      reads_from_object]
    exact ⟨by omega, _, reads_encodeFields fields ordered.1 ordered.2 limit (depth + 1) (by omega)
      none (by simp) rest, rfl⟩

/-- Items that do not nest too deep are read back up to the closing mark. -/
theorem reads_encodeItems (items : List Value) (ordered : Value.OrderedItems items)
    (limit depth : Nat) (fits : depth + Value.depthItems items ≤ limit) (rest : List Char) :
    Reads (readItems limit depth (encodeItems items ++ ([arrayClose] ++ rest)))
      (Value.unifiedItems items) rest := by
  match items with
  | [] => exact reads_items_close.mpr ⟨rfl, rfl⟩
  | item :: others =>
    rw [Value.depthItems] at fits
    obtain ⟨c, body, cons, opens⟩ := encode_cons item
    have first := reads_encode item ordered.1 limit depth (by omega)
      (encodeItems others ++ ([arrayClose] ++ rest))
    have later := reads_encodeItems others ordered.2 limit depth (by omega) rest
    rw [cons, List.cons_append, reads_readValue_cons] at first
    rw [encodeItems, cons, List.append_assoc, List.cons_append, reads_items_cons opens]
    exact ⟨_, _, _, first, later, rfl⟩

/-- Fields that do not nest too deep are read back up to the closing mark, after any earlier name. -/
theorem reads_encodeFields (fields : List (String × Value)) (ascending : Fields.Ascending fields)
    (ordered : Value.OrderedFields fields) (limit depth : Nat)
    (fits : depth + Value.depthFields fields ≤ limit) (previous : Option String)
    (after : ∀ earlier ∈ previous, ∀ field ∈ fields, earlier < field.1) (rest : List Char) :
    Reads (readFields limit depth previous (encodeFields fields ++ ([objectClose] ++ rest)))
      (Value.unifiedFields fields) rest := by
  match fields with
  | [] => exact reads_fields_close.mpr ⟨rfl, rfl⟩
  | (name, item) :: others =>
    rw [Value.depthFields] at fits
    obtain ⟨above, tail⟩ := List.pairwise_cons.mp ascending
    obtain ⟨c, body, cons, -⟩ := encode_cons item
    have first := reads_encode item ordered.1 limit depth (by omega)
      (encodeFields others ++ ([objectClose] ++ rest))
    have later := reads_encodeFields others tail ordered.2 limit depth (by omega) (some name)
      (fun earlier same field member => Option.some.inj same ▸ above field member) rest
    rw [cons, List.cons_append, reads_readValue_cons] at first
    obtain ⟨source, quoted, named⟩ := reads_encodeString name depth
      (c :: (body ++ (encodeFields others ++ ([objectClose] ++ rest))))
    rw [encodeFields, cons, List.append_assoc, List.append_assoc, List.cons_append, quoted,
      reads_fields_cons]
    exact ⟨name, _, _, _, _, _, named,
      fun earlier member => after earlier member _ (List.mem_cons_self ..), first, later, rfl⟩

end

mutual

/-- A value that nests too deep is refused as too deep, whatever follows. -/
theorem refuses_encode (value : Value) (ordered : value.Ordered) (limit depth : Nat)
    (reached : depth ≤ limit) (deep : limit < depth + value.depth) (rest : List Char) :
    Refuses (readValue limit depth (encode value ++ rest)) (.tooDeep limit) := by
  match value with
  | .null | .bool _ | .int _ | .float _ | .string _ =>
    simp only [Value.depth] at deep
    omega
  | .array items =>
    rw [Value.depth] at deep
    rw [encode, List.cons_append, List.cons_append, List.append_assoc, refuses_readValue_cons,
      readFrom_array, refuses_bind]
    by_cases below : depth < limit
    · rw [enter_of_lt below]
      refine .inr ⟨_, rfl, refuses_map.mpr ?_⟩
      exact refuses_encodeItems items ordered limit (depth + 1) below (by omega) rest
    · rw [enter_of_le (by omega)]
      exact .inl (refuses_error.mpr rfl)
  | .object fields =>
    rw [Value.depth] at deep
    rw [encode, List.cons_append, List.cons_append, List.append_assoc, refuses_readValue_cons,
      readFrom_object, refuses_bind]
    by_cases below : depth < limit
    · rw [enter_of_lt below]
      refine .inr ⟨_, rfl, refuses_map.mpr ?_⟩
      exact refuses_encodeFields fields ordered.1 ordered.2 limit (depth + 1) below (by omega) none
        (by simp) rest
    · rw [enter_of_le (by omega)]
      exact .inl (refuses_error.mpr rfl)

/-- Items of which one nests too deep are refused as too deep. -/
theorem refuses_encodeItems (items : List Value) (ordered : Value.OrderedItems items)
    (limit depth : Nat) (reached : depth ≤ limit) (deep : limit < depth + Value.depthItems items)
    (rest : List Char) :
    Refuses (readItems limit depth (encodeItems items ++ ([arrayClose] ++ rest)))
      (.tooDeep limit) := by
  match items with
  | [] =>
    rw [Value.depthItems] at deep
    omega
  | item :: others =>
    rw [Value.depthItems] at deep
    obtain ⟨c, body, cons, opens⟩ := encode_cons item
    rw [encodeItems, cons, List.append_assoc, List.cons_append]
    apply refuses_items_cons opens
    -- Either the first item is too deep itself, or it is read and a later one is too deep.
    by_cases fits : depth + item.depth ≤ limit
    · have first := reads_encode item ordered.1 limit depth fits
        (encodeItems others ++ ([arrayClose] ++ rest))
      rw [cons, List.cons_append, reads_readValue_cons] at first
      exact .inr ⟨_, _, first,
        refuses_encodeItems others ordered.2 limit depth reached (by omega) rest⟩
    · have first := refuses_encode item ordered.1 limit depth reached (by omega)
        (encodeItems others ++ ([arrayClose] ++ rest))
      rw [cons, List.cons_append, refuses_readValue_cons] at first
      exact .inl first

/-- Fields of which one nests too deep are refused as too deep. -/
theorem refuses_encodeFields (fields : List (String × Value))
    (ascending : Fields.Ascending fields) (ordered : Value.OrderedFields fields)
    (limit depth : Nat) (reached : depth ≤ limit) (deep : limit < depth + Value.depthFields fields)
    (previous : Option String) (after : ∀ earlier ∈ previous, ∀ field ∈ fields, earlier < field.1)
    (rest : List Char) :
    Refuses (readFields limit depth previous (encodeFields fields ++ ([objectClose] ++ rest)))
      (.tooDeep limit) := by
  match fields with
  | [] =>
    rw [Value.depthFields] at deep
    omega
  | (name, item) :: others =>
    rw [Value.depthFields] at deep
    obtain ⟨above, tail⟩ := List.pairwise_cons.mp ascending
    obtain ⟨c, body, cons, -⟩ := encode_cons item
    obtain ⟨source, quoted, named⟩ := reads_encodeString name depth
      (c :: (body ++ (encodeFields others ++ ([objectClose] ++ rest))))
    rw [encodeFields, cons, List.append_assoc, List.append_assoc, List.cons_append, quoted]
    apply refuses_fields_cons named
      fun earlier member => after earlier member _ (List.mem_cons_self ..)
    by_cases fits : depth + item.depth ≤ limit
    · have first := reads_encode item ordered.1 limit depth fits
        (encodeFields others ++ ([objectClose] ++ rest))
      rw [cons, List.cons_append, reads_readValue_cons] at first
      refine .inr ⟨_, _, first, ?_⟩
      exact refuses_encodeFields others tail ordered.2 limit depth reached (by omega) (some name)
        (fun earlier same field member => Option.some.inj same ▸ above field member) rest
    · have first := refuses_encode item ordered.1 limit depth reached (by omega)
        (encodeFields others ++ ([objectClose] ++ rest))
      rw [cons, List.cons_append, refuses_readValue_cons] at first
      exact .inl first

end

/-- A value within the limit is read back from its whole canonical text. -/
theorem decode_encode_of_depth_le {value : Value} (ordered : value.Ordered) {limit : Nat}
    (fits : value.depth ≤ limit) : decode limit (encode value) = .ok value.unified := by
  have read := reads_encode value ordered limit 0 (by omega) []
  rw [List.append_nil] at read
  obtain ⟨suffix, read⟩ := read
  rw [decode, read]

/-- A value beyond the limit is refused as too deep. -/
theorem decode_encode_of_lt_depth {value : Value} (ordered : value.Ordered) {limit : Nat}
    (deep : limit < value.depth) :
    ∃ offset, decode limit (encode value) = .error (.malformed (.tooDeep limit) offset) := by
  have refused := refuses_encode value ordered limit 0 (by omega) (by omega) []
  rw [List.append_nil] at refused
  obtain ⟨refusal, refused, defect⟩ := refused
  rw [decode, refused]
  exact ⟨_, by rw [← defect]; rfl⟩

/-- Reading undoes writing exactly up to the nesting limit: a value whose arrays and objects nest no
deeper is read back as the same value, and any other is refused as too deep. -/
theorem decode_encode (value : Value) (ordered : value.Ordered) (limit : Nat) :
    (value.depth ≤ limit →
      ∃ read, decode limit (encode value) = .ok read ∧ (read == value) = true) ∧
    (limit < value.depth →
      ∃ fault offset, decode limit (encode value) = .error fault ∧
        fault = .malformed (.tooDeep limit) offset ∧ fault.code = "E_LC_DECODE") := by
  constructor
  · intro fits
    exact ⟨_, decode_encode_of_depth_le ordered fits, Value.unified_beq value⟩
  · intro deep
    obtain ⟨offset, refused⟩ := decode_encode_of_lt_depth ordered deep
    exact ⟨_, offset, refused, rfl, rfl⟩

/-- An object two levels deep with a word for no number, the least integer and characters that are
escaped is read back at limit two and refused at limit one. -/
theorem decode_encode_two_levels :
    let value : Value := .object [("a", .array [.float ⟨0xfff8000000000001⟩, .int Int64.minValue]),
      ("b", .string "\"\\")]
    value.Ordered ∧ value.depth = 2 ∧
      (∃ read, decode 2 (encode value) = .ok read ∧ (read == value) = true) ∧
      ∃ fault offset, decode 1 (encode value) = .error fault ∧
        fault = .malformed (.tooDeep 1) offset ∧ fault.code = "E_LC_DECODE" := by
  intro value
  have ordered : value.Ordered := by
    refine ⟨?_, ⟨trivial, trivial, trivial⟩, trivial, trivial⟩
    decide
  have depth : value.depth = 2 := rfl
  exact ⟨ordered, depth, (decode_encode value ordered 2).1 (by omega),
    (decode_encode value ordered 1).2 (by omega)⟩

end ContentSpace.CanonicalText
