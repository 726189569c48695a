import ContentSpace.Desugar.Temporary
import ContentSpace.Proofs.Number.Numeral

/-!
# Numbers of temporary names

A stem and its number stand in a temporary name without a sign between them. Two stems can therefore
spell one name with different numbers, but only when the one with the smaller number is the other
one with a numeral behind it. Stems that do not end in a digit, as those of desugaring, never do, and
names with numbers from ranges that do not meet are then different.
-/

namespace ContentSpace.Temporaries

variable {stem other name : String} {number count first middle last : Nat}

/-- Names that are given out are temporary. -/
@[simp] theorem isTemporary_name (stem : String) (number : Nat) :
    isTemporary (Temporaries.name stem number) = true := by
  simp [isTemporary, Temporaries.name]

/-- A stem with a number spells the name of another stem with a greater number: the stem goes on
behind the other one with a numeral, and this numeral and the digits of the number write the greater
number. -/
def Coincide (stem : String) (number : Nat) (other : String) (greater : Nat) : Prop :=
  ∃ high, 0 < high ∧ stem.toList = other.toList ++ Numeral.digits high ∧
    greater = high * 10 ^ (Numeral.digits number).length + number

/-- Names with different numbers are equal when their stems and numbers coincide, and only then. -/
theorem name_eq_name_iff (smaller : number < count) :
    Temporaries.name stem number = Temporaries.name other count ↔
      Coincide stem number other count := by
  simp only [Temporaries.name, List.cons_append, String.ofList_inj, List.cons.injEq, true_and,
    List.append_eq_append_iff]
  constructor
  · rintro (⟨front, -, digits⟩ | ⟨front, longer, digits⟩)
    · -- The digits of the smaller number do not end in those of the greater one.
      have values := congrArg Numeral.value digits
      rw [Numeral.value_append, Numeral.value_digits, Numeral.value_digits] at values
      omega
    · obtain ⟨high, positive, rfl, splits⟩ :=
        (Numeral.append_digits_eq_digits_iff smaller).mp digits.symm
      exact ⟨high, positive, longer, splits⟩
  · rintro ⟨high, positive, longer, splits⟩
    refine .inr ⟨Numeral.digits high, longer, ?_⟩
    rw [splits, Numeral.digits_append_digits positive]

/-- The last character of a stem is a digit. -/
def EndsInDigit (stem : String) : Prop := ∃ c ∈ stem.toList.getLast?, c.isDigit = true

instance (stem : String) : Decidable (EndsInDigit stem) :=
  decidable_of_iff (stem.toList.getLast?.any Char.isDigit) (by simp [EndsInDigit, Option.any_eq_true])

/-- A stem that coincides with another one ends in a digit. -/
theorem Coincide.endsInDigit (coincide : Coincide stem number other count) : EndsInDigit stem := by
  obtain ⟨high, -, longer, -⟩ := coincide
  have nonempty := Numeral.digits_ne_nil high
  refine ⟨(Numeral.digits high).getLast nonempty, ?_,
    Numeral.isDigit_of_mem_digits (List.getLast_mem nonempty)⟩
  rw [longer, List.getLast?_append_of_ne_nil _ nonempty, List.getLast?_eq_some_getLast nonempty]
  rfl

/-- A number that coincides with a smaller one has at least two digits. -/
theorem Coincide.ten_le (coincide : Coincide stem number other count) : 10 ≤ count := by
  obtain ⟨high, positive, -, rfl⟩ := coincide
  have digits := List.length_pos_iff.mpr (Numeral.digits_ne_nil number)
  calc
    10 = 10 ^ 1 := rfl
    _ ≤ 10 ^ (Numeral.digits number).length := Nat.pow_le_pow_right (by decide) digits
    _ ≤ high * 10 ^ (Numeral.digits number).length := Nat.le_mul_of_pos_left _ positive
    _ ≤ high * 10 ^ (Numeral.digits number).length + number := Nat.le_add_right _ _

/-- No character of a stem is a digit. -/
def IsStem (stem : String) : Prop := ∀ c ∈ stem.toList, c.isDigit = false

instance (stem : String) : Decidable (IsStem stem) :=
  decidable_of_iff (stem.toList.all fun c => !c.isDigit) (by simp [IsStem])

/-- A stem without digits does not end in one. -/
theorem IsStem.not_endsInDigit (plain : IsStem stem) : ¬ EndsInDigit stem := by
  rintro ⟨c, final, digital⟩
  rw [plain c (List.mem_of_mem_getLast? final)] at digital
  exact Bool.false_ne_true digital

/-- Equal names of stems without digits have equal numbers. -/
theorem number_eq_of_name_eq (plain : IsStem stem) (plainToo : IsStem other)
    (same : Temporaries.name stem number = Temporaries.name other count) : number = count := by
  rcases Nat.lt_trichotomy number count with smaller | equal | greater
  · exact absurd ((name_eq_name_iff smaller).mp same).endsInDigit plain.not_endsInDigit
  · exact equal
  · exact absurd ((name_eq_name_iff greater).mp same.symm).endsInDigit plainToo.not_endsInDigit

/-- Names of stems without digits with different numbers are different. -/
theorem name_ne (plain : IsStem stem) (plainToo : IsStem other) (different : number ≠ count) :
    Temporaries.name stem number ≠ Temporaries.name other count :=
  fun same => different (number_eq_of_name_eq plain plainToo same)

/-- A name was given out with a number from a range. -/
def Numbered (first last : Nat) (name : String) : Prop :=
  ∃ stem number, IsStem stem ∧ name = Temporaries.name stem number ∧ first ≤ number ∧ number < last

/-- The name with a number from a range. -/
theorem numbered_name (plain : IsStem stem) (above : first ≤ number) (below : number < last) :
    Numbered first last (Temporaries.name stem number) :=
  ⟨stem, number, plain, rfl, above, below⟩

/-- Names with numbers from a range have numbers from every wider range. -/
theorem Numbered.widen {wideFirst wideLast : Nat} (numbered : Numbered first last name)
    (before : wideFirst ≤ first) (after : last ≤ wideLast) : Numbered wideFirst wideLast name := by
  obtain ⟨stem, number, plain, rfl, above, below⟩ := numbered
  exact ⟨stem, number, plain, rfl, Nat.le_trans before above, Nat.lt_of_lt_of_le below after⟩

/-- No name has numbers from two ranges of which one ends before the other starts. -/
theorem Numbered.not_later (numbered : Numbered first middle name) :
    ¬ Numbered middle last name := by
  intro later
  obtain ⟨stem, number, plain, rfl, -, below⟩ := numbered
  obtain ⟨other, count, plainToo, same, above, -⟩ := later
  have equal := number_eq_of_name_eq plain plainToo same
  omega

end ContentSpace.Temporaries
