import ContentSpace.Number.DoubleText
import ContentSpace.Proofs.Number.Shortest

/-!
# The text of a double reads back

The text of a double holds the digits of its shortest decimal, by position or with a power of ten.
Reading either form finds the decimal again, whatever zeros stand around its digits, and the
magnitude nearest to the decimal is the one that was written. So every double is read back from its
text, all words for no number as the one chosen among them. The text holds no semicolon.
-/

namespace ContentSpace.Double

open Numeral (digits value)

/-- Digits are taken from the front of a text up to what follows them. -/
theorem takeWhile_isDigit (front rest : List Char) (digital : ∀ c ∈ front, c.isDigit = true)
    (stops : ∀ c ∈ rest.head?, c.isDigit = false) :
    (front ++ rest).takeWhile Char.isDigit = front ∧
      (front ++ rest).dropWhile Char.isDigit = rest := by
  rw [List.takeWhile_append_of_pos digital, List.dropWhile_append_of_pos digital]
  cases rest with
  | nil => simp
  | cons c rest =>
    have stop := stops c rfl
    simp [stop]

/-- Digits with a point among them write the decimal that they are without the point. -/
theorem decimal?_point (whole fraction rest : List Char)
    (wholeDigital : ∀ c ∈ whole, c.isDigit = true) (nonempty : whole ≠ [])
    (fractionDigital : ∀ c ∈ fraction, c.isDigit = true)
    (stops : ∀ c ∈ rest.head?, c.isDigit = false) :
    decimal? (whole ++ '.' :: (fraction ++ rest)) = (exponent? rest).map fun exponent =>
      Decimal.normal (value (whole ++ fraction)) (exponent - fraction.length) := by
  have front := takeWhile_isDigit whole ('.' :: (fraction ++ rest)) wholeDigital (by
    rintro c ⟨⟩
    rfl)
  have back := takeWhile_isDigit fraction rest fractionDigital stops
  have some : whole.isEmpty = false := by simpa using nonempty
  simp only [decimal?, front.1, front.2, back.1, back.2, some, Bool.false_and]
  rfl

/-- Digits without a point write the decimal that they are. -/
theorem decimal?_whole (whole rest : List Char)
    (digital : ∀ c ∈ whole, c.isDigit = true) (nonempty : whole ≠ [])
    (stops : ∀ c ∈ rest.head?, c.isDigit = false ∧ c ≠ '.') :
    decimal? (whole ++ rest) = (exponent? rest).map fun exponent =>
      Decimal.normal (value whole) exponent := by
  have front := takeWhile_isDigit whole rest digital fun c member => (stops c member).1
  have some : whole.isEmpty = false := by simpa using nonempty
  simp only [decimal?, front.1, front.2]
  split
  next => exact absurd rfl (stops '.' rfl).2
  next => simp [some]

/-- A power of ten reads back. -/
theorem exponent?_ofInt (n : Int) : exponent? ('e' :: Numeral.ofInt n) = some n := by
  have numeral := Numeral.isNumeral_digits n.natAbs
  by_cases negative : n < 0
  · have sign : (n.natAbs : Int) = -n := by omega
    simp only [exponent?, Numeral.ofInt, if_pos negative, numeral, Numeral.value_digits, sign]
    simp
  · have sign : (n.natAbs : Int) = n := by omega
    obtain ⟨c, rest, cons⟩ := List.exists_cons_of_ne_nil (Numeral.digits_ne_nil n.natAbs)
    have digital : c.isDigit = true :=
      Numeral.isDigit_of_mem_digits (n := n.natAbs) (by simp [cons])
    simp only [exponent?, Numeral.ofInt, if_neg negative, true_or, if_true]
    split
    next minus =>
      rw [cons] at minus
      obtain ⟨rfl, -⟩ := List.cons.inj minus
      contradiction
    next plus =>
      rw [cons] at plus
      obtain ⟨rfl, -⟩ := List.cons.inj plus
      contradiction
    next => simp [numeral, Numeral.value_digits, sign]

/-- Reading a decimal written by position. -/
theorem decimal?_positional {units : Nat} (point : Int) (ends : units % 10 ≠ 0) :
    decimal? (positional (digits units) point) =
      some ⟨units, point - (digits units).length⟩ := by
  have digital : ∀ c ∈ digits units, c.isDigit = true := fun _ => Numeral.isDigit_of_mem_digits
  have count : 0 < (digits units).length := List.length_pos_iff.mpr (Numeral.digits_ne_nil _)
  let before := (1 - point).toNat
  let after := (point + 1 - (digits units).length).toNat
  let padded := List.replicate before '0' ++ digits units ++ List.replicate after '0'
  let whole := (max point 1).toNat
  have paddedDigital : ∀ c ∈ padded, c.isDigit = true := by
    intro c member
    simp only [padded, List.mem_append, List.mem_replicate] at member
    rcases member with (⟨-, rfl⟩ | inside) | ⟨-, rfl⟩
    · rfl
    · exact digital c inside
    · rfl
  have length : padded.length = before + (digits units).length + after := by
    simp [padded, Nat.add_assoc]
  have wholeInside : 0 < whole ∧ whole ≤ padded.length := by omega
  have nonempty : padded.take whole ≠ [] := by
    rw [← List.length_pos_iff, List.length_take]
    omega
  have written : value padded = units * 10 ^ after := by
    simp only [padded]
    rw [Numeral.value_append_zeros, Numeral.value_zeros_append, Numeral.value_digits]
  have reading := decimal?_point (padded.take whole) (padded.drop whole) []
    (fun c member => paddedDigital c (List.mem_of_mem_take member)) nonempty
    (fun c member => paddedDigital c (List.mem_of_mem_drop member)) (by simp)
  rw [List.append_nil, List.take_append_drop, written, exponent?, Option.map_some,
    Decimal.normal_mul_pow _ _ ends, List.length_drop] at reading
  have exponent : (0 : Int) - ((padded.length - whole : Nat) : Int) + (after : Int) =
      point - (digits units).length := by omega
  rw [exponent] at reading
  exact reading

/-- Reading a decimal written with a power of ten. -/
theorem decimal?_scientific {units : Nat} (point : Int) (ends : units % 10 ≠ 0) :
    decimal? (scientific (digits units) point) =
      some ⟨units, point - (digits units).length⟩ := by
  have digital : ∀ c ∈ digits units, c.isDigit = true := fun _ => Numeral.isDigit_of_mem_digits
  obtain ⟨first, others, cons⟩ := List.exists_cons_of_ne_nil (Numeral.digits_ne_nil units)
  rw [cons] at digital
  have firstDigital : ∀ c ∈ [first], c.isDigit = true := by
    intro c member
    exact digital c (by simp_all)
  have written : value (first :: others) = units := by rw [← cons, Numeral.value_digits]
  have greatest (exponent : Int) : Decimal.normal units exponent = ⟨units, exponent⟩ := by
    simpa using Decimal.normal_mul_pow exponent 0 ends
  rw [cons]
  cases others with
  | nil =>
    have reading := decimal?_whole [first] ('e' :: Numeral.ofInt (point - 1)) firstDigital
      (by simp) (by
        rintro c ⟨⟩
        decide)
    rw [exponent?_ofInt, Option.map_some, written, greatest] at reading
    simpa [scientific] using reading
  | cons second others =>
    have reading := decimal?_point [first] (second :: others)
      ('e' :: Numeral.ofInt (point - 1)) firstDigital (by simp)
      (fun c member => digital c (by simp_all)) (by
        rintro c ⟨⟩
        rfl)
    have joined : [first] ++ second :: others = first :: second :: others := rfl
    rw [exponent?_ofInt, Option.map_some, joined, written, greatest] at reading
    have exponent : point - 1 - ((second :: others).length : Int) =
        point - ((first :: second :: others).length : Int) := by
      simp only [List.length_cons]
      omega
    rw [exponent] at reading
    simpa [scientific] using reading

/-- A decimal in its greatest unit is read back from its text. -/
theorem decimal?_decimalText {decimal : Decimal} (ends : decimal.units % 10 ≠ 0) :
    decimal? (decimalText decimal) = some decimal := by
  have exponent : ((digits decimal.units).length + decimal.exponent : Int) -
      (digits decimal.units).length = decimal.exponent := by omega
  simp only [decimalText]
  split
  · rw [decimal?_positional _ ends, exponent]
  · rw [decimal?_scientific _ ends, exponent]

/-- A character of the text of a decimal is a digit or one of the marks between digits. -/
theorem mem_decimalText {decimal : Decimal} {c : Char} (member : c ∈ decimalText decimal) :
    c.isDigit = true ∨ c ∈ ['.', 'e', '-'] := by
  have digital (n : Nat) (c : Char) (member : c ∈ digits n) : c.isDigit = true :=
    Numeral.isDigit_of_mem_digits member
  simp only [decimalText] at member
  split at member
  · -- By position: taking and dropping only distribute zeros and digits.
    have kept : c = '.' ∨ c = '0' ∨ c ∈ digits decimal.units := by
      simp only [positional, List.mem_append, List.mem_cons] at member
      rcases member with whole | point | fraction
      · have inside := List.mem_of_mem_take whole
        simp only [List.mem_append, List.mem_replicate] at inside
        tauto
      · exact .inl point
      · have inside := List.mem_of_mem_drop fraction
        simp only [List.mem_append, List.mem_replicate] at inside
        tauto
    rcases kept with rfl | rfl | inside
    · simp
    · exact .inl rfl
    · exact .inl (digital _ c inside)
  · simp only [scientific, Numeral.ofInt, List.mem_append, List.mem_cons] at member
    rcases member with (first | others) | mark | power
    · exact .inl (digital _ c (List.mem_of_mem_take first))
    · split at others
      · simp at others
      · rcases List.mem_cons.mp others with rfl | inside
        · simp
        · exact .inl (digital _ c (List.mem_of_mem_drop inside))
    · simp [mark]
    · split at power
      · rcases List.mem_cons.mp power with rfl | inside
        · simp
        · exact .inl (digital _ c inside)
      · exact .inl (digital _ c power)

/-- The text of a decimal starts with a digit. -/
theorem decimalText_cons (decimal : Decimal) :
    ∃ c rest, decimalText decimal = c :: rest ∧ c.isDigit = true := by
  obtain ⟨first, others, cons⟩ :=
    List.exists_cons_of_ne_nil (Numeral.digits_ne_nil decimal.units)
  have digital : first.isDigit = true :=
    Numeral.isDigit_of_mem_digits (n := decimal.units) (by simp [cons])
  simp only [decimalText]
  split
  · simp only [positional, cons]
    obtain ⟨whole, count⟩ : ∃ count,
        (max (((first :: others).length : Int) + decimal.exponent) 1).toNat = count + 1 :=
      ⟨_, (Nat.succ_pred (by omega)).symm⟩
    rw [count]
    cases (1 - (((first :: others).length : Int) + decimal.exponent)).toNat with
    | zero => exact ⟨first, _, by simp; rfl, digital⟩
    | succ before => exact ⟨'0', _, by simp [List.replicate_succ]; rfl, rfl⟩
  · exact ⟨first, _, by simp [scientific, cons]; rfl, digital⟩

/-- Text that starts with a digit is no word: it writes a decimal. -/
theorem magnitude?_cons {c : Char} (digital : c.isDigit = true) (rest : List Char) :
    magnitude? (c :: rest) = (decimal? (c :: rest)).map Decimal.nearestMagnitude := by
  have noWord (word : List Char) (start : (word.head?.all fun c => 57 < c.toNat) = true) :
      (c :: rest).map Char.toLower ≠ word := by
    intro same
    rw [List.map_cons] at same
    have bounds := Numeral.toNat_of_isDigit digital
    have lower : c.toLower = c := by
      apply dif_neg
      intro upper
      have atLeast : 65 ≤ c.toNat := UInt32.le_iff_toNat_le.mp upper.1
      omega
    rw [← same, List.head?_cons, Option.all_some, lower, decide_eq_true_eq] at start
    omega
  simp only [magnitude?]
  rw [if_neg, if_neg]
  · exact noWord _ (by decide)
  · exact not_or.mpr ⟨noWord _ (by decide), noWord _ (by decide)⟩

/-- The magnitude nearest to a decimal is read from its text. -/
theorem magnitude?_decimalText {decimal : Decimal} (ends : decimal.units % 10 ≠ 0) :
    magnitude? (decimalText decimal) = some decimal.nearestMagnitude := by
  obtain ⟨c, rest, cons, digital⟩ := decimalText_cons decimal
  rw [cons, magnitude?_cons digital, ← cons, decimal?_decimalText ends, Option.map_some]

/-- The text of a magnitude that is no word for no number, without a sign. -/
def unsignedText (magnitude : Nat) : List Char :=
  if magnitude = infiniteMagnitude then "inf".toList
  else if magnitude = 0 then "0.0".toList
  else decimalText (Decimal.shortest magnitude)

/-- A double is written as its sign and its magnitude. -/
theorem text_eq {x : Double} (number : x.isNaN = false) :
    x.text = (if x.isNegative then ['-'] else []) ++ unsignedText x.magnitude := by
  simp [text, number, unsignedText]

/-- A magnitude is read back from its text. -/
theorem magnitude?_unsignedText {magnitude : Nat} (bound : magnitude ≤ infiniteMagnitude) :
    magnitude? (unsignedText magnitude) = some magnitude := by
  unfold unsignedText
  split
  next infinite => rw [infinite]; decide
  next finite =>
    split
    next zero => rw [zero]; decide +kernel
    next positive =>
      have reads := Decimal.shortest_reads (Nat.pos_of_ne_zero positive)
        (Nat.lt_of_le_of_ne bound finite)
      rw [magnitude?_decimalText reads.2, reads.1]

/-- The text of a magnitude does not start with a sign. -/
theorem unsignedText_cons (magnitude : Nat) :
    ∃ c rest, unsignedText magnitude = c :: rest ∧ c ≠ '-' ∧ c ≠ '+' := by
  unfold unsignedText
  split
  · exact ⟨'i', _, rfl, by decide, by decide⟩
  · split
    · exact ⟨'0', _, rfl, by decide, by decide⟩
    · obtain ⟨c, rest, cons, digital⟩ := decimalText_cons (Decimal.shortest magnitude)
      refine ⟨c, rest, cons, ?_, ?_⟩ <;>
      · rintro rfl
        contradiction

/-- A double consists of its sign and its magnitude. -/
theorem ofMagnitude_magnitude (x : Double) : ofMagnitude x.isNegative x.magnitude = x := by
  obtain ⟨bits⟩ := x
  have bound := bits.toNat_lt
  have total : (if signWeight ≤ bits.toNat then signWeight + bits.toNat % signWeight
      else bits.toNat % signWeight) = bits.toNat := by
    by_cases negative : signWeight ≤ bits.toNat
    · rw [if_pos negative]
      simp only [signWeight] at negative ⊢
      omega
    · rw [if_neg negative, Nat.mod_eq_of_lt (by omega)]
  simp only [ofMagnitude, isNegative, magnitude, decide_eq_true_eq, total, UInt64.ofNat_toNat]

/-- Every double is read back from its text, all words for no number as the chosen one. -/
theorem ofText?_text (x : Double) : ofText? x.text = some x.unified := by
  cases number : x.isNaN with
  | true =>
    simp only [text, unified, number, if_true]
    decide
  | false =>
    have bound : x.magnitude ≤ infiniteMagnitude := by
      simpa [isNaN] using number
    have magnitude := magnitude?_unsignedText bound
    have whole := ofMagnitude_magnitude x
    rw [text_eq number]
    simp only [unified, number, Bool.false_eq_true, if_false]
    cases negative : x.isNegative with
    | true =>
      rw [negative] at whole
      simp [ofText?, magnitude, whole]
    | false =>
      rw [negative] at whole
      obtain ⟨c, rest, cons, notMinus, notPlus⟩ := unsignedText_cons x.magnitude
      have unsigned : ofText? (unsignedText x.magnitude) =
          (magnitude? (unsignedText x.magnitude)).map (ofMagnitude false) := by
        rw [cons]
        unfold ofText?
        split
        next minus => exact absurd (List.cons.inj minus).1 notMinus
        next plus => exact absurd (List.cons.inj plus).1 notPlus
        next => rfl
      simp [unsigned, magnitude, whole]

/-- The text of a double holds no semicolon. -/
theorem semicolon_not_mem_text (x : Double) : ';' ∉ x.text := by
  cases number : x.isNaN with
  | true =>
    simp only [text, number, if_true]
    decide
  | false =>
    rw [text_eq number]
    intro member
    rcases List.mem_append.mp member with sign | digits
    · split at sign <;> simp at sign
    · unfold unsignedText at digits
      split at digits
      · exact absurd digits (by decide)
      · split at digits
        · exact absurd digits (by decide)
        · rcases mem_decimalText digits with digital | mark
          · contradiction
          · exact absurd mark (by decide)

/-- The double that digits write is the one nearest to their number. -/
theorem ofText?_numeral {text : List Char} (numeral : Numeral.isNumeral text = true) :
    ofText? text =
      some (ofMagnitude false (Decimal.normal (Numeral.value text) 0).nearestMagnitude) := by
  obtain ⟨nonempty, digital⟩ := Numeral.isNumeral_iff.mp numeral
  have decimal : decimal? text = some (Decimal.normal (Numeral.value text) 0) := by
    have whole := decimal?_whole text [] digital nonempty (by simp)
    rwa [List.append_nil] at whole
  obtain ⟨c, rest, rfl⟩ := List.exists_cons_of_ne_nil nonempty
  have first := digital c (List.mem_cons_self ..)
  have unsigned : ofText? (c :: rest) = (magnitude? (c :: rest)).map (ofMagnitude false) := by
    unfold ofText?
    split
    case h_1 same =>
      cases same
      contradiction
    case h_2 same =>
      cases same
      contradiction
    case h_3 => rfl
  rw [unsigned, magnitude?_cons first, decimal]
  rfl

/-! ## Signs -/

/-- The sign of a double is the highest bit of its word. -/
theorem isNegative_eq_testBit (x : Double) : x.isNegative = x.bits.toNat.testBit 63 := by
  have bound := x.bits.toNat_lt
  rw [isNegative, Nat.testBit_eq_decide_div_mod_eq, decide_eq_decide, signWeight]
  omega

/-- A negative has the other sign. -/
theorem isNegative_negated (x : Double) : x.negated.isNegative = !x.isNegative := by
  rw [isNegative_eq_testBit, isNegative_eq_testBit, negated, UInt64.toNat_xor, Nat.testBit_xor]
  have sign : (UInt64.toNat 0x8000000000000000).testBit 63 = true := by decide
  rw [sign, Bool.xor_true]

/-- A double that is negated several times has the other sign if that is an odd number of times. -/
theorem isNegative_iterate_negated (x : Double) (count : Nat) :
    (negated^[count] x).isNegative = (x.isNegative ^^ decide (count % 2 = 1)) := by
  induction count with
  | zero => simp
  | succ count ih =>
    rw [Function.iterate_succ_apply', isNegative_negated, ih]
    rcases Nat.mod_two_eq_zero_or_one count with even | odd
    · simp [even, Nat.add_mod]
    · simp [odd, Nat.add_mod]

/-- A double has the sign that it is made with. -/
theorem isNegative_ofMagnitude {magnitude : Nat} (small : magnitude < signWeight)
    (negative : Bool) : (ofMagnitude negative magnitude).isNegative = negative := by
  simp only [signWeight] at small
  cases negative <;> simp [isNegative, ofMagnitude, signWeight] <;> omega

/-- A quotient is rounded to an infinity at most. -/
theorem nearestMagnitude_le (numerator denominator : Nat) :
    nearestMagnitude numerator denominator ≤ infiniteMagnitude := by
  unfold nearestMagnitude
  split
  · exact Nat.zero_le _
  · exact Nat.min_le_left ..

/-- The double that digits write is not negative. -/
theorem isNegative_of_numeral {text : List Char} {x : Double}
    (numeral : Numeral.isNumeral text = true) (read : ofText? text = some x) :
    x.isNegative = false := by
  rw [ofText?_numeral numeral, Option.some.injEq] at read
  subst read
  refine isNegative_ofMagnitude (Nat.lt_of_le_of_lt ?_ (by decide : infiniteMagnitude < _)) false
  unfold Decimal.nearestMagnitude
  dsimp only
  split
  · exact Nat.zero_le _
  split
  · exact Nat.le_refl _
  · exact nearestMagnitude_le _ _

end ContentSpace.Double
