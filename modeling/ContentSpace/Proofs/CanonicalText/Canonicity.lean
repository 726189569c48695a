import ContentSpace.Proofs.CanonicalText.SelfDelimiting
import ContentSpace.Proofs.Fields

/-!
# Only canonical text is read

Whatever a reader takes stands in its source in canonical form, and every object in it lists its
names in order. Together with the round trip this says which texts are read at all: exactly the
texts of ordered values within the limit. Since canonical text shows where it ends, nothing can
follow it or be cut off from it.
-/

namespace ContentSpace.CanonicalText

mutual

/-- A value that is read stands at the front of its source in canonical form. -/
theorem encode_of_reads_from {limit depth : Nat} {first : Char} {source rest : List Char}
    {value : Value} (read : Reads (readFrom limit depth first source) value rest) :
    first :: source = encode value ++ rest ∧ value.Ordered := by
  -- There is one case for each mark that starts a value, in the order in which they are tried.
  by_cases isNull : first = nullMark
  · subst isNull
    obtain ⟨rfl, rfl⟩ := reads_from_null.mp read
    exact ⟨rfl, trivial⟩
  by_cases isTrue : first = trueMark
  · subst isTrue
    obtain ⟨rfl, rfl⟩ := reads_from_true.mp read
    exact ⟨rfl, trivial⟩
  by_cases isFalse : first = falseMark
  · subst isFalse
    obtain ⟨rfl, rfl⟩ := reads_from_false.mp read
    exact ⟨rfl, trivial⟩
  by_cases isInt : first = intMark
  · subst isInt
    rw [readFrom_int] at read
    obtain ⟨n, rfl, rfl⟩ := reads_integer_iff.mp read
    exact ⟨by simp [encode], trivial⟩
  by_cases isFloat : first = floatMark
  · subst isFloat
    rw [readFrom_float] at read
    obtain ⟨x, rfl, rfl⟩ := reads_float_iff.mp read
    exact ⟨by simp [encode], trivial⟩
  by_cases isQuote : first = quote
  · subst isQuote
    obtain ⟨content, rfl, same⟩ := reads_from_quote.mp read
    exact ⟨same, trivial⟩
  by_cases isArray : first = arrayOpen
  · subst isArray
    obtain ⟨-, items, readItems, rfl⟩ := reads_from_array.mp read
    obtain ⟨same, ordered⟩ := encode_of_reads_items readItems
    exact ⟨by simp [encode, same], ordered⟩
  by_cases isObject : first = objectOpen
  · subst isObject
    obtain ⟨-, fields, readFields, rfl⟩ := reads_from_object.mp read
    obtain ⟨same, ascending, -, ordered⟩ := encode_of_reads_fields readFields
    exact ⟨by simp [encode, same], ascending, ordered⟩
  · rw [readFrom] at read
    simp [isNull, isTrue, isFalse, isInt, isFloat, isQuote, isArray, isObject] at read
termination_by (source.length, 1)

/-- Items that are read stand at the front of their source in canonical form, before the closing
mark. -/
theorem encode_of_reads_items {limit depth : Nat} {source rest : List Char}
    {items : List Value} (read : Reads (readItems limit depth source) items rest) :
    source = encodeItems items ++ arrayClose :: rest ∧ Value.OrderedItems items := by
  match source with
  | [] =>
    rw [readItems] at read
    simp at read
  | c :: text =>
    by_cases closes : c = arrayClose
    · subst closes
      obtain ⟨rfl, rfl⟩ := reads_items_close.mp read
      exact ⟨rfl, trivial⟩
    · obtain ⟨item, middle, others, first, later, rfl⟩ := (reads_items_cons closes).mp read
      obtain ⟨sameItem, orderedItem⟩ := encode_of_reads_from first
      have shorter : middle.length ≤ text.length := by
        obtain ⟨suffix, -⟩ := first
        exact suffix.length_le
      obtain ⟨sameOthers, orderedOthers⟩ := encode_of_reads_items later
      exact ⟨by simp [encodeItems, sameItem, sameOthers], orderedItem, orderedOthers⟩
termination_by (source.length, 0)

/-- Fields that are read stand at the front of their source in canonical form, before the closing
mark, and their names ascend from the name before them. -/
theorem encode_of_reads_fields {limit depth : Nat} {previous : Option String}
    {source rest : List Char} {fields : List (String × Value)}
    (read : Reads (readFields limit depth previous source) fields rest) :
    source = encodeFields fields ++ objectClose :: rest ∧ Fields.Ascending fields ∧
      (∀ earlier ∈ previous, ∀ field ∈ fields, earlier < field.1) ∧
      Value.OrderedFields fields := by
  match source with
  | [] =>
    rw [readFields] at read
    simp at read
  | c :: text =>
    by_cases closes : c = objectClose
    · subst closes
      obtain ⟨rfl, rfl⟩ := reads_fields_close.mp read
      exact ⟨rfl, List.Pairwise.nil, by simp, trivial⟩
    by_cases quoted : c = quote
    · subst quoted
      obtain ⟨name, d, more, item, middle, others, readName, ascends, first, later, rfl⟩ :=
        reads_fields_cons.mp read
      have sameName := reads_string_iff.mp readName
      have shorter : more.length < text.length := by
        obtain ⟨suffix, -⟩ := readName
        exact suffix.length_le
      have shorterRest : middle.length ≤ more.length := by
        obtain ⟨suffix, -⟩ := first
        exact suffix.length_le
      obtain ⟨sameItem, orderedItem⟩ := encode_of_reads_from first
      obtain ⟨sameOthers, ascending, above, orderedOthers⟩ := encode_of_reads_fields later
      refine ⟨?_, ?_, ?_, orderedItem, orderedOthers⟩
      · simp [encodeFields, sameName, sameItem, sameOthers]
      · exact List.pairwise_cons.mpr ⟨above name rfl, ascending⟩
      · intro earlier member field inside
        rcases List.mem_cons.mp inside with rfl | inside
        · exact ascends earlier member
        · exact String.lt_trans (ascends earlier member) (above name rfl field inside)
    · exact absurd read (not_reads_fields closes quoted)
termination_by (source.length, 0)

end

/-- Fields that are read are made by inserting each as it is read. -/
theorem ofPairs_of_reads_fields {limit depth : Nat} {previous : Option String}
    {source rest : List Char} {fields : List (String × Value)}
    (read : Reads (readFields limit depth previous source) fields rest) :
    Fields.ofPairs fields = fields := by
  obtain ⟨-, ascending, -, -⟩ := encode_of_reads_fields read
  exact Fields.ofPairs_of_ascending ascending

/-- A text is rejected when it is refused as no canonical text. -/
def Rejects (limit : Nat) (text : List Char) : Prop :=
  ∃ fault, decode limit text = .error fault ∧ fault.code = "E_LC_DECODE"

/-- A text is either read as a value or rejected. -/
theorem decode_or_rejects (limit : Nat) (text : List Char) :
    (∃ value, decode limit text = .ok value) ∨ Rejects limit text := by
  unfold Rejects decode
  cases readValue limit 0 text with
  | error refusal => exact .inr ⟨_, rfl, rfl⟩
  | ok taken =>
    cases rest : taken.rest with
    | nil => exact .inl ⟨taken.value, by simp [rest]⟩
    | cons c tail => exact .inr ⟨_, by simp only [rest]; rfl, rfl⟩

/-- A text that is read is the canonical text of an ordered value. -/
theorem encode_of_decode {limit : Nat} {text : List Char} {value : Value}
    (read : decode limit text = .ok value) : encode value = text ∧ value.Ordered := by
  unfold decode at read
  cases outcome : readValue limit 0 text with
  | error refusal => simp [outcome] at read
  | ok taken =>
    have reads : Reads (readValue limit 0 text) taken.value taken.rest := ⟨taken.suffix, outcome⟩
    cases rest : taken.rest with
    | cons c tail => simp [outcome, rest] at read
    | nil =>
      simp only [outcome, rest, Except.ok.injEq] at read
      rw [read, rest] at reads
      cases text with
      | nil =>
        rw [readValue] at reads
        simp at reads
      | cons c source =>
        rw [reads_readValue_cons] at reads
        obtain ⟨same, ordered⟩ := encode_of_reads_from reads
        exact ⟨by rw [same, List.append_nil], ordered⟩

/-- The texts that are read are those of the ordered values within the limit that use no word for
no number but the chosen one. -/
theorem decode_eq_ok_iff {limit : Nat} {text : List Char} {value : Value} :
    decode limit text = .ok value ↔
      encode value = text ∧ value.Ordered ∧ value.depth ≤ limit ∧ value.unified = value := by
  constructor
  · intro read
    obtain ⟨rfl, ordered⟩ := encode_of_decode read
    have fits : value.depth ≤ limit := by
      by_contra deep
      obtain ⟨offset, refused⟩ := decode_encode_of_lt_depth ordered (Nat.lt_of_not_le deep)
      rw [read] at refused
      cases refused
    rw [decode_encode_of_depth_le ordered fits] at read
    exact ⟨rfl, ordered, fits, Except.ok.inj read⟩
  · rintro ⟨rfl, ordered, fits, chosen⟩
    rw [decode_encode_of_depth_le ordered fits, chosen]

/-- A text that is of no ordered value is rejected. -/
theorem rejects_of_forall_ne {limit : Nat} {text : List Char}
    (foreign : ∀ value : Value, value.Ordered → encode value ≠ text) : Rejects limit text := by
  rcases decode_or_rejects limit text with ⟨value, read⟩ | rejected
  · obtain ⟨same, ordered⟩ := encode_of_decode read
    exact absurd same (foreign value ordered)
  · exact rejected

/-- Canonical text with more behind it is rejected. -/
theorem rejects_trailing (limit : Nat) (value : Value) {tail : List Char} (more : tail ≠ []) :
    Rejects limit (encode value ++ tail) := by
  apply rejects_of_forall_ne
  intro other _ same
  have ends : encode other ++ [] = encode value ++ tail := by rw [same, List.append_nil]
  exact more (encode_append_inj other value [] tail ends).2.symm

/-- Canonical text with its end cut off is rejected. -/
theorem rejects_truncated (limit : Nat) {value : Value} {text tail : List Char}
    (whole : encode value = text ++ tail) (more : tail ≠ []) : Rejects limit text := by
  apply rejects_of_forall_ne
  intro other _ same
  have ends : encode other ++ tail = encode value ++ [] := by rw [same, whole, List.append_nil]
  exact more (encode_append_inj other value tail [] ends).2

/-- The text of a value in which some object lists names out of order or twice is rejected. -/
theorem rejects_unordered (limit : Nat) {value : Value} (unordered : ¬ value.Ordered) :
    Rejects limit (encode value) := by
  apply rejects_of_forall_ne
  intro other ordered same
  have ends : encode other ++ [] = encode value ++ [] := by rw [same]
  have alike := (encode_append_inj other value [] [] ends).1
  exact unordered (value.ordered_unified.mp (alike ▸ other.ordered_unified.mpr ordered))

/-- Only canonical text is read: a text that is read as a value is the canonical text of the value,
two texts that are read as the same value are the same, and a text that is of no ordered value, goes
on after a value, ends inside one, or lists names out of order or twice is rejected. -/
theorem decode_canonical (limit : Nat) (text : List Char) :
    (∀ value, decode limit text = .ok value → encode value = text) ∧
    (∀ value bound other again, decode limit text = .ok value → decode bound other = .ok again →
      (value == again) = true → text = other) ∧
    ((∀ value : Value, value.Ordered → encode value ≠ text) → Rejects limit text) ∧
    (∀ value tail, text = encode value ++ tail → tail ≠ [] → Rejects limit text) ∧
    (∀ value tail, encode value = text ++ tail → tail ≠ [] → Rejects limit text) ∧
    (∀ value : Value, encode value = text → ¬ value.Ordered → Rejects limit text) := by
  refine ⟨?_, ?_, rejects_of_forall_ne, ?_, ?_, ?_⟩
  · intro value read
    exact (encode_of_decode read).1
  · intro value bound other again read readAgain same
    obtain ⟨rfl, -, -, chosen⟩ := decode_eq_ok_iff.mp read
    obtain ⟨rfl, -, -, chosenAgain⟩ := decode_eq_ok_iff.mp readAgain
    rw [Value.beq_iff, chosen, chosenAgain] at same
    rw [same]
  · rintro value tail rfl more
    exact rejects_trailing limit value more
  · intro value tail whole more
    exact rejects_truncated limit whole more
  · rintro value rfl unordered
    exact rejects_unordered limit unordered

/-- No value is written as one with a leading zero. -/
theorem encode_ne_leading_zero (value : Value) : encode value ≠ "ℤ01;".toList := by
  intro same
  have chars : "ℤ01;".toList = 'ℤ' :: (['0', '1'] ++ [';']) := by decide
  rw [chars] at same
  cases value with
  | bool b => cases b <;> exact absurd (List.cons.inj same).1 (by decide)
  | int n =>
    have digits : Numeral.ofInt n.toInt = ['0', '1'] :=
      List.append_cancel_right (List.cons.inj same).2
    have canonical := (isCanonicalInteger_ofInt n.toInt).1
    rw [digits] at canonical
    exact absurd canonical (by decide)
  | _ => exact absurd (List.cons.inj same).1 (by decide)

/-- The text of two items is read, from itself only; a numeral with a leading zero, the same text
with more behind it or without its end, and an object that names a field twice are rejected. -/
theorem decode_canonical_two_items :
    let value : Value := .array [.int 1, .null]
    (decode 1 "⟦ℤ1;∅⟧".toList = .ok value ∧ encode value = "⟦ℤ1;∅⟧".toList) ∧
      (∀ text, decode 2 text = .ok value → "⟦ℤ1;∅⟧".toList = text) ∧
      Rejects 1 "ℤ01;".toList ∧ Rejects 1 "⟦ℤ1;∅⟧∅".toList ∧ Rejects 1 "⟦ℤ1;∅".toList ∧
      Rejects 1 "⟨\"a\"∅\"a\"∅⟩".toList := by
  intro value
  have one : Numeral.ofInt (1 : Int64).toInt = ['1'] := by
    rw [Numeral.ofInt, if_neg (by decide), Numeral.digits_of_lt (by decide)]
    decide
  have text : encode value = "⟦ℤ1;∅⟧".toList := by
    simp only [value, encode, encodeItems, one]
    decide
  have read : decode 1 "⟦ℤ1;∅⟧".toList = .ok value :=
    decode_eq_ok_iff.mpr ⟨text, ⟨trivial, trivial, trivial⟩, by decide, rfl⟩
  have twice : ¬ (Value.object [("a", .null), ("a", .null)]).Ordered := by
    intro ordered
    exact absurd ordered.1 (by decide)
  refine ⟨⟨read, (decode_canonical 1 _).1 value read⟩, ?_, ?_, ?_, ?_, ?_⟩
  · intro other again
    exact (decode_canonical 1 _).2.1 value 2 other value read again ((Value.beq_iff _ _).mpr rfl)
  · exact (decode_canonical 1 _).2.2.1 fun other _ => encode_ne_leading_zero other
  · exact (decode_canonical 1 _).2.2.2.1 value ['∅'] (by rw [text]; decide) (by decide)
  · exact (decode_canonical 1 _).2.2.2.2.1 value ['⟧'] (by rw [text]; decide) (by decide)
  · exact (decode_canonical 1 _).2.2.2.2.2 (.object [("a", .null), ("a", .null)]) (by decide) twice

end ContentSpace.CanonicalText
