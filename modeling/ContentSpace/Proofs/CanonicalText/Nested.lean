import ContentSpace.Proofs.CanonicalText.Leaf

/-!
# Reading arrays and objects

One step of each reader: how the first character of a source decides what is read, and how an array
or object is read from its first item or field and the rest of them. Reading goes in only below the
limit, and a name is taken only after all names before it.
-/

namespace ContentSpace.CanonicalText

variable {limit depth : Nat} {previous : Option String} {text rest : List Char}

/-! ## Values by their first character -/

/-- Null is its mark. -/
@[simp] theorem reads_from_null {value : Value} :
    Reads (readFrom limit depth nullMark text) value rest ↔ value = .null ∧ text = rest := by
  rw [readFrom]
  simp [eq_comm]

/-- A truth value is its mark. -/
@[simp] theorem reads_from_true {value : Value} :
    Reads (readFrom limit depth trueMark text) value rest ↔ value = .bool true ∧ text = rest := by
  have other : trueMark ≠ nullMark := by decide
  rw [readFrom]
  simp [other, eq_comm]

/-- A truth value is its mark. -/
@[simp] theorem reads_from_false {value : Value} :
    Reads (readFrom limit depth falseMark text) value rest ↔
      value = .bool false ∧ text = rest := by
  have others : falseMark ≠ nullMark ∧ falseMark ≠ trueMark := by decide
  rw [readFrom]
  simp [others, eq_comm]

/-- The mark of integers starts an integer. -/
@[simp] theorem readFrom_int : readFrom limit depth intMark text = readInteger depth text := by
  have others : intMark ≠ nullMark ∧ intMark ≠ trueMark ∧ intMark ≠ falseMark := by decide
  rw [readFrom]
  simp [others]

/-- The mark of doubles starts a double. -/
@[simp] theorem readFrom_float : readFrom limit depth floatMark text = readFloat depth text := by
  have others : floatMark ≠ nullMark ∧ floatMark ≠ trueMark ∧ floatMark ≠ falseMark ∧
      floatMark ≠ intMark := by decide
  rw [readFrom]
  simp [others]

/-- A quote starts text. -/
@[simp] theorem reads_from_quote {value : Value} :
    Reads (readFrom limit depth quote text) value rest ↔
      ∃ content, value = .string content ∧ quote :: text = encodeString content ++ rest := by
  have others : quote ≠ nullMark ∧ quote ≠ trueMark ∧ quote ≠ falseMark ∧ quote ≠ intMark ∧
      quote ≠ floatMark := by decide
  rw [readFrom]
  simp only [others, if_false, if_true]
  refine Iff.trans (reads_map Value.string (fun _ => rfl) fun _ => rfl) ?_
  simp only [reads_string_iff, eq_comm, and_comm]

/-- The opening mark of arrays starts the items of an array, one level deeper. -/
theorem readFrom_array : readFrom limit depth arrayOpen text =
    enter limit depth (arrayOpen :: text) text >>= fun inner =>
      (readItems limit inner text).map fun taken => taken.map .array := by
  have others : arrayOpen ≠ nullMark ∧ arrayOpen ≠ trueMark ∧ arrayOpen ≠ falseMark ∧
      arrayOpen ≠ intMark ∧ arrayOpen ≠ floatMark ∧ arrayOpen ≠ quote := by decide
  rw [readFrom]
  simp only [others, if_false, if_true]

/-- The opening mark of objects starts the fields of an object, one level deeper. -/
theorem readFrom_object : readFrom limit depth objectOpen text =
    enter limit depth (objectOpen :: text) text >>= fun inner =>
      (readFields limit inner none text).map fun taken => taken.map .object := by
  have others : objectOpen ≠ nullMark ∧ objectOpen ≠ trueMark ∧ objectOpen ≠ falseMark ∧
      objectOpen ≠ intMark ∧ objectOpen ≠ floatMark ∧ objectOpen ≠ quote ∧
      objectOpen ≠ arrayOpen := by decide
  rw [readFrom]
  simp only [others, if_false, if_true]

/-- An array or object is entered below the limit. -/
theorem enter_of_lt {opening : List Char} (below : depth < limit) :
    enter limit depth opening text = .ok (depth + 1) := by
  rw [enter, if_pos below]

/-- An array or object at the limit is refused as too deep. -/
theorem enter_of_le {opening : List Char} (reached : limit ≤ depth) :
    enter limit depth opening text = .error ⟨.tooDeep limit, opening, text, depth + 1⟩ := by
  rw [enter, if_neg (Nat.not_lt.mpr reached)]

/-- An array is read below the limit from its items. -/
theorem reads_from_array {value : Value} :
    Reads (readFrom limit depth arrayOpen text) value rest ↔
      depth < limit ∧
        ∃ items, Reads (readItems limit (depth + 1) text) items rest ∧ Value.array items = value := by
  rw [readFrom_array]
  by_cases below : depth < limit
  · rw [enter_of_lt below, reads_bind]
    simp only [below, true_and, Except.ok.injEq, exists_eq_left']
    exact reads_map Value.array (fun _ => rfl) fun _ => rfl
  · rw [enter_of_le (Nat.not_lt.mp below), reads_bind]
    simp [below]

/-- An object is read below the limit from its fields. -/
theorem reads_from_object {value : Value} :
    Reads (readFrom limit depth objectOpen text) value rest ↔
      depth < limit ∧ ∃ fields, Reads (readFields limit (depth + 1) none text) fields rest ∧
        Value.object fields = value := by
  rw [readFrom_object]
  by_cases below : depth < limit
  · rw [enter_of_lt below, reads_bind]
    simp only [below, true_and, Except.ok.injEq, exists_eq_left']
    exact reads_map Value.object (fun _ => rfl) fun _ => rfl
  · rw [enter_of_le (Nat.not_lt.mp below), reads_bind]
    simp [below]

/-! ## Items -/

/-- The closing mark ends the items. -/
theorem reads_items_close {items : List Value} :
    Reads (readItems limit depth (arrayClose :: text)) items rest ↔ items = [] ∧ text = rest := by
  rw [readItems]
  simp [eq_comm]

/-- Items are read one after another. -/
theorem reads_items_cons {c : Char} {items : List Value} (more : c ≠ arrayClose) :
    Reads (readItems limit depth (c :: text)) items rest ↔
      ∃ item middle others, Reads (readFrom limit depth c text) item middle ∧
        Reads (readItems limit depth middle) others rest ∧ items = item :: others := by
  rw [readItems]
  simp only [if_neg more, reads_bind]
  constructor
  · rintro ⟨item, found, others, foundOthers, read⟩
    obtain ⟨rfl, rfl⟩ := reads_ok.mp read
    exact ⟨item.value, item.rest, others.value, ⟨item.suffix, found⟩,
      ⟨others.suffix, foundOthers⟩, rfl⟩
  · rintro ⟨item, middle, others, ⟨suffix, found⟩, ⟨otherSuffix, foundOthers⟩, rfl⟩
    exact ⟨_, found, _, foundOthers, reads_ok.mpr ⟨rfl, rfl⟩⟩

/-- Items are refused for their first item or for the others. -/
theorem refuses_items_cons {c : Char} {defect : Defect} (more : c ≠ arrayClose)
    (refused : Refuses (readFrom limit depth c text) defect ∨
      ∃ item middle, Reads (readFrom limit depth c text) item middle ∧
        Refuses (readItems limit depth middle) defect) :
    Refuses (readItems limit depth (c :: text)) defect := by
  rw [readItems]
  simp only [if_neg more, refuses_bind]
  rcases refused with first | ⟨item, middle, ⟨suffix, found⟩, others⟩
  · exact .inl first
  · exact .inr ⟨_, found, .inl others⟩

/-! ## Fields -/

/-- The closing mark ends the fields. -/
theorem reads_fields_close {fields : List (String × Value)} :
    Reads (readFields limit depth previous (objectClose :: text)) fields rest ↔
      fields = [] ∧ text = rest := by
  rw [readFields]
  simp [eq_comm]

/-- A name passes the test of its order when it stands after the name before it. -/
theorem sorted_iff {name : String} :
    (previous.any fun earlier => name ≤ earlier) = false ↔
      ∀ earlier ∈ previous, earlier < name := by
  cases previous with
  | none => simp
  | some earlier =>
    rw [Option.any_some, decide_eq_false_iff_not, String.not_le]
    simp

/-- Only the closing mark and a quote can stand where a field starts. -/
theorem not_reads_fields {c : Char} {fields : List (String × Value)} (more : c ≠ objectClose)
    (other : c ≠ quote) : ¬ Reads (readFields limit depth previous (c :: text)) fields rest := by
  rw [readFields]
  simp [more, other]

/-- Fields are read one after another, each with a name after all names before it. -/
theorem reads_fields_cons {fields : List (String × Value)} :
    Reads (readFields limit depth previous (quote :: text)) fields rest ↔
      ∃ name c more item middle others,
        Reads (readString (quote :: text) depth text) name (c :: more) ∧
        (∀ earlier ∈ previous, earlier < name) ∧
        Reads (readFrom limit depth c more) item middle ∧
        Reads (readFields limit depth (some name) middle) others rest ∧
        fields = (name, item) :: others := by
  have more : quote ≠ objectClose := by decide
  rw [readFields]
  simp only [if_neg more, if_true, reads_bind]
  constructor
  · rintro ⟨⟨name, after, nameSuffix⟩, foundName, read⟩
    by_cases sorted : (previous.any fun earlier => name ≤ earlier) = true
    · simp [sorted] at read
    · have ascends := sorted_iff.mp (Bool.eq_false_iff.mpr sorted)
      simp only [sorted] at read
      cases after with
      | nil => simp at read
      | cons c more =>
        simp only [Bool.false_eq_true, if_false, reads_bind] at read
        obtain ⟨item, found, others, foundOthers, read⟩ := read
        obtain ⟨rfl, rfl⟩ := reads_ok.mp read
        exact ⟨name, c, more, item.value, item.rest, others.value, ⟨nameSuffix, foundName⟩,
          ascends, ⟨item.suffix, found⟩, ⟨others.suffix, foundOthers⟩, rfl⟩
  · rintro ⟨name, c, more, item, middle, others, ⟨nameSuffix, foundName⟩, ascends,
      ⟨suffix, found⟩, ⟨otherSuffix, foundOthers⟩, rfl⟩
    have sorted := sorted_iff.mpr ascends
    refine ⟨_, foundName, ?_⟩
    simp only [sorted, Bool.false_eq_true, if_false, reads_bind]
    exact ⟨_, found, _, foundOthers, reads_ok.mpr ⟨rfl, rfl⟩⟩

/-- Fields are refused for the value of the first field or for the other fields. -/
theorem refuses_fields_cons {name : String} {c : Char} {more : List Char} {defect : Defect}
    (foundName : Reads (readString (quote :: text) depth text) name (c :: more))
    (ascends : ∀ earlier ∈ previous, earlier < name)
    (refused : Refuses (readFrom limit depth c more) defect ∨
      ∃ item middle, Reads (readFrom limit depth c more) item middle ∧
        Refuses (readFields limit depth (some name) middle) defect) :
    Refuses (readFields limit depth previous (quote :: text)) defect := by
  have inside : quote ≠ objectClose := by decide
  have sorted := sorted_iff.mpr ascends
  obtain ⟨nameSuffix, foundName⟩ := foundName
  rw [readFields]
  simp only [if_neg inside, if_true, refuses_bind]
  refine .inr ⟨_, foundName, ?_⟩
  simp only [sorted, Bool.false_eq_true, if_false, refuses_bind]
  rcases refused with first | ⟨item, middle, ⟨suffix, found⟩, others⟩
  · exact .inl first
  · exact .inr ⟨_, found, .inl others⟩

end ContentSpace.CanonicalText
