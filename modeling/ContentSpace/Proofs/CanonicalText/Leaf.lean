import ContentSpace.Proofs.CanonicalText.Outcome
import ContentSpace.Proofs.Value.Unified
import Mathlib.Data.List.TakeWhile

/-!
# Reading text and numbers

Text between quotes, integers and doubles are read exactly from their canonical text: each statement
here is an equivalence between what a reader takes and how its source begins. Read from left to
right it refuses every other spelling; read from right to left it finds every value again, whatever
follows.
-/

namespace ContentSpace.CanonicalText

variable {depth : Nat} {opening source rest : List Char}

/-! ## Text -/

/-- A quote ends text. -/
theorem reads_chars_quote {chars text : List Char} :
    Reads (readChars opening depth (quote :: text)) chars rest ↔ chars = [] ∧ text = rest := by
  rw [readChars.eq_def]
  simp [eq_comm]

/-- After an escape mark only a quote or another escape mark can be read, as itself. -/
theorem reads_chars_escape {c : Char} {chars text : List Char} :
    Reads (readChars opening depth (escape :: c :: text)) chars rest ↔
      (c = quote ∨ c = escape) ∧
        ∃ inner, Reads (readChars opening depth text) inner rest ∧ c :: inner = chars := by
  have different : escape ≠ quote := by decide
  rw [readChars.eq_def]
  simp only [if_neg different, if_true]
  by_cases marked : c = quote ∨ c = escape
  · rw [if_pos marked]
    refine Iff.trans (reads_map (c :: ·) (fun _ => rfl) fun _ => rfl) ?_
    simp [marked]
  · simp [marked]

/-- Any other character of text is read as itself. -/
theorem reads_chars_plain {c : Char} {chars text : List Char} (plain : ¬ (c = quote ∨ c = escape)) :
    Reads (readChars opening depth (c :: text)) chars rest ↔
      ∃ inner, Reads (readChars opening depth text) inner rest ∧ c :: inner = chars := by
  obtain ⟨noQuote, noEscape⟩ := not_or.mp plain
  rw [readChars.eq_def]
  simp only [if_neg noQuote, if_neg noEscape]
  exact reads_map (c :: ·) (fun _ => rfl) fun _ => rfl

/-- The characters of text are read from their escaped form up to the closing quote, and only from
it. -/
theorem reads_chars_iff {chars : List Char} :
    Reads (readChars opening depth source) chars rest ↔
      source = encodeChars chars ++ quote :: rest := by
  constructor
  · intro read
    induction source using readChars.induct generalizing chars with
    | case1 => simp [readChars] at read
    | case2 text =>
      obtain ⟨rfl, rfl⟩ := reads_chars_quote.mp read
      rfl
    | case3 different => simp [readChars, different] at read
    | case4 c text marked _ ih =>
      obtain ⟨-, inner, innerRead, rfl⟩ := reads_chars_escape.mp read
      simp [encodeChars, marked, ih innerRead]
    | case5 c text unmarked _ => exact absurd (reads_chars_escape.mp read).1 unmarked
    | case6 c text noQuote noEscape ih =>
      have plain : ¬ (c = quote ∨ c = escape) := not_or.mpr ⟨noQuote, noEscape⟩
      obtain ⟨inner, innerRead, rfl⟩ := (reads_chars_plain plain).mp read
      simp [encodeChars, plain, ih innerRead]
  · rintro rfl
    induction chars with
    | nil => exact reads_chars_quote.mpr ⟨rfl, rfl⟩
    | cons c chars ih =>
      by_cases marked : c = quote ∨ c = escape
      · rw [encodeChars, if_pos marked]
        exact reads_chars_escape.mpr ⟨marked, chars, ih, rfl⟩
      · rw [encodeChars, if_neg marked]
        exact (reads_chars_plain marked).mpr ⟨chars, ih, rfl⟩

/-- Text is read from its canonical text after the opening quote, and only from it. -/
theorem reads_string_iff {text : String} :
    Reads (readString opening depth source) text rest ↔
      quote :: source = encodeString text ++ rest := by
  refine Iff.trans (reads_map String.ofList (fun _ => rfl) fun _ => rfl) ?_
  constructor
  · rintro ⟨chars, read, rfl⟩
    simp [encodeString, reads_chars_iff.mp read]
  · intro same
    refine ⟨text.toList, reads_chars_iff.mpr ?_, String.ofList_toList⟩
    simpa [encodeString] using same

/-! ## Numbers -/

/-- A text without end marks is the part of a source before its first end mark. -/
theorem takeWhile_number (rest : List Char) {text : List Char} (absent : numberEnd ∉ text) :
    (text ++ numberEnd :: rest).takeWhile (· != numberEnd) = text ∧
      (text ++ numberEnd :: rest).dropWhile (· != numberEnd) = numberEnd :: rest := by
  have kept : ∀ c ∈ text, (c != numberEnd) = true := by
    intro c member
    simp only [bne_iff_ne]
    rintro rfl
    exact absent member
  rw [List.takeWhile_append_of_pos kept, List.dropWhile_append_of_pos kept]
  simp

/-- A number is read up to the first end mark. -/
theorem reads_number_iff {text : List Char} :
    Reads (readNumber depth source) text rest ↔
      numberEnd ∉ text ∧ source = text ++ numberEnd :: rest := by
  constructor
  · intro read
    unfold readNumber at read
    simp only at read
    split at read
    · simp at read
    next c after found =>
      obtain ⟨rfl, rfl⟩ := reads_ok.mp read
      have stop := List.head?_dropWhile_not (· != numberEnd) source
      rw [found] at stop
      have mark : c = numberEnd := by simpa using stop
      have whole := List.takeWhile_append_dropWhile (p := (· != numberEnd)) (l := source)
      rw [found, mark] at whole
      refine ⟨fun member => ?_, whole.symm⟩
      have passed := List.mem_takeWhile_imp member
      simp at passed
  · rintro ⟨absent, rfl⟩
    have parts := takeWhile_number rest absent
    unfold readNumber
    simp only
    split
    next found =>
      rw [parts.2] at found
      contradiction
    next c after found =>
      rw [parts.2] at found
      obtain ⟨-, rfl⟩ := List.cons.inj found
      exact reads_ok.mpr ⟨parts.1, rfl⟩

/-- An integer without a sign is canonical when its digits are. -/
theorem isCanonicalInteger_iff {text : List Char} (unsigned : ∀ digits, text ≠ '-' :: digits) :
    isCanonicalInteger text = true ↔
      Numeral.isNumeral text = true ∧ (text = ['0'] ∨ text.head? ≠ some '0') := by
  have notZero := unsigned ['0']
  unfold isCanonicalInteger
  split
  next digits => exact absurd rfl (unsigned digits)
  next => simp [notZero]

/-- An integer with a sign is canonical when its digits are and do not write zero. -/
theorem isCanonicalInteger_minus_iff {digits : List Char} :
    isCanonicalInteger ('-' :: digits) = true ↔
      Numeral.isNumeral digits = true ∧ digits.head? ≠ some '0' := by
  simp only [isCanonicalInteger, Bool.and_eq_true, Bool.or_eq_true, bne_iff_ne, beq_iff_eq]
  constructor
  · rintro ⟨⟨numeral, rfl | other⟩, notZero⟩
    · exact absurd rfl notZero
    · exact ⟨numeral, other⟩
  · rintro ⟨numeral, other⟩
    refine ⟨⟨numeral, .inr other⟩, ?_⟩
    rintro same
    obtain ⟨-, rfl⟩ := List.cons.inj same
    exact other rfl

/-- What is written for an integer is canonical, and the integer is its number. -/
theorem isCanonicalInteger_ofInt (n : Int) :
    isCanonicalInteger (Numeral.ofInt n) = true ∧ integerValue (Numeral.ofInt n) = n := by
  have numeral := Numeral.isNumeral_digits n.natAbs
  by_cases negative : n < 0
  · have number : -(n.natAbs : Int) = n := by omega
    rw [Numeral.ofInt, if_pos negative, isCanonicalInteger_minus_iff, integerValue,
      Numeral.value_digits, number]
    exact ⟨⟨numeral, Numeral.head?_digits_ne (by omega)⟩, rfl⟩
  · have number : (n.natAbs : Int) = n := by omega
    have unsigned : ∀ digits, Numeral.digits n.natAbs ≠ '-' :: digits := by
      intro digits same
      have digital : '-'.isDigit = true :=
        Numeral.isDigit_of_mem_digits (n := n.natAbs) (by simp [same])
      contradiction
    rw [Numeral.ofInt, if_neg negative, isCanonicalInteger_iff unsigned]
    refine ⟨⟨numeral, Numeral.head?_digits _⟩, ?_⟩
    unfold integerValue
    split
    next digits same => exact absurd same (unsigned digits)
    next => rw [Numeral.value_digits, number]

/-- A canonical integer is what is written for its number. -/
theorem ofInt_integerValue {text : List Char} (canonical : isCanonicalInteger text = true) :
    Numeral.ofInt (integerValue text) = text := by
  by_cases signed : ∃ digits, text = '-' :: digits
  · obtain ⟨digits, rfl⟩ := signed
    obtain ⟨numeral, leading⟩ := isCanonicalInteger_minus_iff.mp canonical
    obtain ⟨nonempty, all⟩ := Numeral.isNumeral_iff.mp numeral
    have positive := Numeral.value_pos all nonempty leading
    have number : (-(Numeral.value digits : Int)).natAbs = Numeral.value digits := by omega
    rw [integerValue, Numeral.ofInt, if_pos (by omega), number,
      Numeral.digits_value all nonempty (.inr leading)]
  · have unsigned : ∀ digits, text ≠ '-' :: digits := fun digits same => signed ⟨digits, same⟩
    obtain ⟨numeral, leading⟩ := (isCanonicalInteger_iff unsigned).mp canonical
    obtain ⟨nonempty, all⟩ := Numeral.isNumeral_iff.mp numeral
    have number : integerValue text = (Numeral.value text : Int) := by
      unfold integerValue
      split
      next digits => exact absurd rfl (unsigned digits)
      next => rfl
    rw [number, Numeral.ofInt, if_neg (by omega), Int.natAbs_natCast,
      Numeral.digits_value all nonempty leading]

/-- What is written for an integer holds no end mark. -/
theorem numberEnd_not_mem_ofInt (n : Int) : numberEnd ∉ Numeral.ofInt n := by
  have absent : numberEnd ∉ Numeral.digits n.natAbs := by
    intro member
    exact absurd (Numeral.isDigit_of_mem_digits member) (by decide)
  have mark : numberEnd ≠ '-' := by decide
  unfold Numeral.ofInt
  split
  · simp [absent, mark]
  · exact absent

/-- Integers of 64 bits are read from their canonical text, and only from it. -/
theorem reads_integer_iff {value : Value} :
    Reads (readInteger depth source) value rest ↔
      ∃ n : Int64, value = .int n ∧ source = Numeral.ofInt n.toInt ++ numberEnd :: rest := by
  rw [readInteger, reads_bind]
  constructor
  · rintro ⟨taken, found, read⟩
    obtain ⟨-, split⟩ := reads_number_iff.mp ⟨taken.suffix, found⟩
    by_cases canonical : isCanonicalInteger taken.value = true
    · by_cases inRange : Int64.minValue.toInt ≤ integerValue taken.value ∧
          integerValue taken.value ≤ Int64.maxValue.toInt
      · rw [if_pos canonical, if_pos inRange] at read
        obtain ⟨rfl, rfl⟩ := reads_ok.mp read
        refine ⟨_, rfl, ?_⟩
        have number : (Int64.ofInt (integerValue taken.value)).toInt = integerValue taken.value :=
          Int64.toInt_ofInt_of_le inRange.1 (Int.lt_add_one_of_le inRange.2)
        rw [number, ofInt_integerValue canonical]
        exact split
      · rw [if_pos canonical, if_neg inRange] at read
        exact absurd read not_reads_error
    · simp [canonical] at read
  · rintro ⟨n, rfl, rfl⟩
    obtain ⟨suffix, found⟩ : Reads (readNumber depth _) (Numeral.ofInt n.toInt) rest :=
      reads_number_iff.mpr ⟨numberEnd_not_mem_ofInt n.toInt, rfl⟩
    obtain ⟨canonical, number⟩ := isCanonicalInteger_ofInt n.toInt
    refine ⟨_, found, ?_⟩
    simp only [canonical, number, if_true]
    rw [if_pos ⟨n.minValue_le_toInt, n.toInt_le⟩, Int64.ofInt_toInt]
    exact reads_ok.mpr ⟨rfl, rfl⟩

/-- Doubles are read from their text, and only from it; all words for no number are read as the
chosen one. -/
theorem reads_float_iff {value : Value} :
    Reads (readFloat depth source) value rest ↔
      ∃ x : Double, value = .float x.unified ∧ source = x.text ++ numberEnd :: rest := by
  rw [readFloat, reads_bind]
  constructor
  · rintro ⟨taken, found, read⟩
    obtain ⟨-, split⟩ := reads_number_iff.mp ⟨taken.suffix, found⟩
    split at read
    next x accepted =>
      obtain ⟨rfl, rfl⟩ := reads_ok.mp read
      obtain ⟨parsed, written⟩ := Option.filter_eq_some_iff.mp accepted
      have same : x.text = taken.value := by simpa using written
      have chosen : x.unified = x := by
        have back := Double.ofText?_text x
        rw [same, parsed] at back
        exact (Option.some.inj back).symm
      exact ⟨x, by rw [chosen]; rfl, by rw [same]; exact split⟩
    next => simp at read
  · rintro ⟨x, rfl, rfl⟩
    obtain ⟨suffix, found⟩ : Reads (readNumber depth _) x.text rest :=
      reads_number_iff.mpr ⟨Double.semicolon_not_mem_text x, rfl⟩
    refine ⟨_, found, ?_⟩
    have accepted : (Double.ofText? x.text).filter (fun y => y.text == x.text) =
        some x.unified := by
      simp [Double.ofText?_text, Option.filter]
    simp only [accepted]
    exact reads_ok.mpr ⟨rfl, rfl⟩

end ContentSpace.CanonicalText
