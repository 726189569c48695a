import ContentSpace.Proofs.Grammar.Spelling.Reading
import ContentSpace.Proofs.Number.DoubleText
import ContentSpace.Tree.Equality
import Mathlib.Algebra.Ring.Int.Defs

/-!
# Digits behind minus signs

Digits stand for a whole number as long as it fits in 64 bits, and for a double beyond that. Minus
signs negate the number at once, so that a number behind signs is a number again. The least whole
number is read from its digits and the sign in front of them, because its magnitude alone is too
large; further signs stay operations, because it has no negative. Nothing else behind a minus sign
is read as the least whole number: not digits between parentheses, not digits with a fraction, and
not digits with an index, a field or arguments after them.
-/

namespace ContentSpace

namespace Grammar

/-! ## Negatives -/

/-- The negative of a node is never the least whole number. -/
theorem negated_ne_minValue (node : Node) : negated node ≠ .int Int64.minValue := by
  unfold negated
  split
  case h_1 n =>
    split
    case isTrue => nofun
    case isFalse other =>
      intro same
      have back : -n = Int64.minValue := Literal.int.inj (Node.literal.inj same)
      have least : n = -Int64.minValue := by rw [← back, Int64.neg_neg]
      exact other (least.trans (by decide))
  case h_2 => nofun
  case h_3 => nofun

/-- A whole number other than the least one, negated several times, is a whole number again. -/
theorem exists_iterate_negated_int {n : Int64} (more : -2 ^ 63 < n.toInt) (count : Nat) :
    ∃ m : Int64, m.toInt = (-1) ^ count * n.toInt ∧ -2 ^ 63 < m.toInt ∧
      negated^[count] (.int n) = .int m := by
  induction count with
  | zero => exact ⟨n, by simp, more, rfl⟩
  | succ count ih =>
    obtain ⟨m, value, more, same⟩ := ih
    have less := m.toInt_lt
    have negative : (-m).toInt = -m.toInt := by
      rw [Int64.toInt_neg, Int.bmod_eq_of_le] <;> omega
    have other : m ≠ Int64.minValue := by
      rintro rfl
      simp at more
    refine ⟨-m, ?_, by omega, ?_⟩
    · rw [negative, value, pow_succ, mul_neg_one, neg_mul]
    · rw [Function.iterate_succ_apply', same]
      exact if_neg other

/-- A double that is negated several times is a double again. -/
theorem iterate_negated_float (x : Double) (count : Nat) :
    negated^[count] (.literal (.float x)) = .literal (.float (Double.negated^[count] x)) := by
  have step : Function.Semiconj (fun x => Node.literal (.float x)) Double.negated negated :=
    fun _ => rfl
  exact (step.iterate_right count x).symm

/-- Negations of the least whole number stay operations. -/
theorem iterate_negated_minValue (count : Nat) :
    negated^[count] (.int Int64.minValue) =
      (fun node => Node.apply .neg [node])^[count] (.int Int64.minValue) := by
  induction count with
  | zero => rfl
  | succ count ih =>
    rw [Function.iterate_succ_apply', Function.iterate_succ_apply', ih]
    cases count with
    | zero => rfl
    | succ count =>
      rw [Function.iterate_succ_apply']
      rfl

/-! ## Signs -/

variable {env : Environment} {node : Node} {words : List Word} {digits : String}

/-- Digits stand for the number that only has a negative if that is their number. -/
theorem isLeastMagnitude_of_word {token : Token} (known : token.word = ⟨.integer, digits⟩) :
    isLeastMagnitude token = (Numeral.value digits.toList == leastMagnitude) := by
  obtain ⟨span, rfl⟩ := Token.exists_of_word known
  rfl

/-- Signs before an operand negate it, unless it is the number that only has a negative. -/
theorem Operates.signs (operates : Operates env node words) (some : words ≠ [])
    (other : ∀ token : Token, words = [token.word] → isLeastMagnitude token = false)
    (count : Nat) :
    Operates env (negated^[count] node) (List.replicate count (.operator "-") ++ words) := by
  induction count with
  | zero => exact operates
  | succ count ih =>
    rw [List.replicate_succ, List.cons_append, Function.iterate_succ_apply']
    refine ih.minus (List.append_ne_nil_of_right_ne_nil _ some) fun token single => ?_
    cases count with
    | zero => exact other token single
    | succ count =>
      have kind : token.kind = .operator :=
        (congrArg Word.kind (List.cons.inj single).1).symm
      simp [isLeastMagnitude, kind]

/-- Signs before digits negate what the digits stand for, unless that only has a negative. -/
theorem Operates.signedDigits {content : Literal}
    (stands : ∀ span, wholeLiteral ⟨.integer, digits, span⟩ = .ok content)
    (other : Numeral.value digits.toList ≠ leastMagnitude) (count : Nat) :
    Operates env (negated^[count] (.literal content))
      (List.replicate count (.operator "-") ++ [⟨.integer, digits⟩]) := by
  refine (Selects.integer stands).operates.signs (List.cons_ne_nil _ _) (fun token single => ?_) _
  rw [isLeastMagnitude_of_word (List.cons.inj single).1.symm]
  exact beq_false_of_ne other

/-- A minus sign before the digits of the number that only has a negative is read as that. Further
signs negate it. -/
theorem Operates.signedLeast {content : Literal}
    (stands : ∀ span, wholeLiteral ⟨.integer, digits, span⟩ = .ok content)
    (least : Numeral.value digits.toList = leastMagnitude) (more : Nat) :
    Operates env (negated^[more] (.int Int64.minValue))
      (List.replicate (more + 1) (.operator "-") ++ [⟨.integer, digits⟩]) := by
  have single : Operates env (.int Int64.minValue) [.operator "-", ⟨.integer, digits⟩] := by
    intro tokens rest room same enough ends
    obtain ⟨sign, tokens, rfl, minus, within⟩ := List.map_eq_cons_iff.mp same
    obtain ⟨less, rfl⟩ : ∃ less, room = less + 1 := ⟨room - 1, by simp at enough; omega⟩
    have taken : (level env less).operand.run (tokens ++ rest) = .ok (.literal content, rest) :=
      (Selects.integer stands).operates within (Nat.le_add_left 1 less) ends
    obtain ⟨token, rfl, known⟩ := List.map_eq_singleton_iff.mp within
    have magnitude : isLeastMagnitude (env.peek ([token] ++ rest)) = true := by
      rw [← beq_iff_eq.mpr least, ← isLeastMagnitude_of_word known]
      rfl
    rw [List.cons_append, run_operand_minus_of_run minus taken, magnitude]
    simp
  rw [List.replicate_succ', List.append_assoc]
  exact single.signs (List.cons_ne_nil _ _) (fun _ two => by simp at two) more

/-! ## The least whole number -/

section

variable {room : Nat} {source rest : List Token} {result : Node}

/-- An operand that takes digits alone ends after them. -/
theorem endsSelection_of_run_integer {token : Token} (kind : token.kind = .integer)
    (run : (level env room).operand.run (token :: source) = .ok (result, rest))
    (single : (token :: source).length - rest.length = 1) :
    source = rest ∧ (env.peek rest).EndsSelection := by
  obtain ⟨_, text, span⟩ := token
  obtain rfl : _ = TokenKind.integer := kind
  have plain : TokenKind.integer ≠ .operator ∧ TokenKind.integer ≠ .identifier := by decide
  rw [run_operand_of_atom rfl plain.1 plain.2, run_atom_integer] at run
  generalize wholeLiteral ⟨.integer, text, span⟩ = read at run
  cases read with
  | error fault => cases run
  | ok content =>
    change ((level env room).furtherSelections (.literal content)).run source = _ at run
    by_cases ends : (env.peek source).EndsSelection
    · rw [run_furtherSelections_of_ends ends] at run
      cases run
      exact ⟨rfl, ends⟩
    · have fewer := length_lt_of_run_furtherSelections ends run
      simp only [List.length_cons] at single
      omega

/-- What stands behind a minus sign is read as the least whole number exactly if it is the digits of
its magnitude alone, directly after the sign and with no selection after them. -/
theorem operand_eq_minValue_iff {sign : Token} (minus : sign.word = .operator "-")
    (run : (level env room).operand.run (sign :: source) = .ok (result, rest)) :
    result = .int Int64.minValue ↔ ∃ magnitude, source = magnitude :: rest ∧
      isLeastMagnitude magnitude = true ∧ (env.peek rest).EndsSelection := by
  obtain ⟨less, inner, inside, rfl⟩ := exists_run_of_minus minus run
  constructor
  · intro least
    split at least
    case isFalse => exact absurd least (negated_ne_minValue inner)
    case isTrue alone =>
      rw [Bool.and_eq_true, beq_iff_eq] at alone
      obtain ⟨magnitude, single⟩ := alone
      cases source with
      | nil => exact absurd inside Consumer.run_nil_ne_ok
      | cons token source =>
        have kind : token.kind = .integer := by
          rw [isLeastMagnitude, Bool.and_eq_true, beq_iff_eq] at magnitude
          exact magnitude.1
        obtain ⟨rfl, ends⟩ := endsSelection_of_run_integer kind inside single
        exact ⟨token, rfl, magnitude, ends⟩
  · rintro ⟨token, rfl, magnitude, -⟩
    have here : isLeastMagnitude (env.peek (token :: rest)) = true := magnitude
    simp [here]

end

end Grammar

open Grammar

/-- Minus signs and digits, written with spaces between them, are the tokens of that text, and every
source with these tokens is read in the same way. A number that fits in 64 bits gives the signed
number itself. The number that is too large by one gives a double without a sign and the least whole
number with one, and further signs are negations of that. A larger number gives a double with the
sign that results. And an operand behind a minus sign, wherever it is read, is the least whole
number only as digits directly after the sign with no selection after them. -/
theorem parseExpression_signed_digits {settings : Settings} {digits : String} {signs : Nat}
    (numeral : Numeral.isNumeral digits.toList = true) (enough : signs < settings.maxDepth) :
    let words := List.replicate signs (.operator "-") ++ [⟨.integer, digits⟩]
    (Source.tokens settings (Word.spaced words)).map Token.word = words ∧
    (∀ (scope : Scope) ⦃source : String⦄, (Source.tokens settings source).map Token.word = words →
      let n := Numeral.value digits.toList
      let parsed := parseExpression settings scope source
      (n < 2 ^ 63 → ∃ m : Int64, m.toInt = (-1) ^ signs * n ∧ parsed = .ok (.int m)) ∧
      (n = 2 ^ 63 →
        (signs = 0 → ∃ x, Double.ofText? digits.toList = some x ∧
          parsed = .ok (.literal (.float x))) ∧
        ∀ more, signs = more + 1 → parsed =
          .ok ((fun node => .apply .neg [node])^[more] (.int Int64.minValue))) ∧
      (2 ^ 63 < n → ∃ x, Double.ofText? digits.toList = some x ∧
        (Double.negated^[signs] x).isNegative = decide (signs % 2 = 1) ∧
        parsed = .ok (.literal (.float (Double.negated^[signs] x))))) ∧
    ∀ ⦃env : Environment⦄ ⦃room : Nat⦄ ⦃sign : Token⦄ ⦃behind rest : List Token⦄ ⦃result : Node⦄,
      sign.word = .operator "-" →
      (level env room).operand.run (sign :: behind) = .ok (result, rest) →
      (result = .int Int64.minValue ↔ ∃ magnitude, behind = magnitude :: rest ∧
        isLeastMagnitude magnitude = true ∧ (env.peek rest).EndsSelection) := by
  intro words
  refine ⟨Source.map_word_tokens_spaced fun word member => ?_, fun scope source same => ?_,
    fun _ _ _ _ _ _ minus run => operand_eq_minValue_iff minus run⟩
  · rcases List.mem_append.mp member with sign | number
    · rw [List.eq_of_mem_replicate sign]
      exact Source.standsAlone_operator (by decide)
    · rw [List.mem_singleton.mp number]
      exact Source.standsAlone_integer numeral
  intro n parsed
  have whole : leastMagnitude = 2 ^ 63 := rfl
  have read := Double.ofText?_numeral numeral
  have reads {node : Node} (operates : Operates (start settings scope source) node words) :
      parsed = .ok node := by
    refine parseExpression_of_takes (operates.takes ?_ ?_) same
    · exact List.append_ne_nil_of_right_ne_nil _ (List.cons_ne_nil _ _)
    · simpa [words] using Nat.succ_le_of_lt enough
  refine ⟨fun small => ?fits, fun limit => ⟨?unsigned, ?signed⟩, fun large => ?exceeds⟩
  case fits =>
    have value : (Int64.ofNat n).toInt = n := Int64.toInt_ofNat_of_lt small
    obtain ⟨m, signed, -, same⟩ :=
      exists_iterate_negated_int (show -2 ^ 63 < (Int64.ofNat n).toInt by omega) signs
    rw [value] at signed
    refine ⟨m, signed, reads ?_⟩
    rw [← same]
    exact .signedDigits (fun _ => wholeLiteral_of_lt (by omega)) (by omega) signs
  case unsigned =>
    rintro rfl
    refine ⟨_, read, reads ?_⟩
    exact (Selects.integer fun _ => wholeLiteral_of_le (by omega) read).operates
  case signed =>
    rintro more rfl
    refine reads ?_
    rw [← iterate_negated_minValue]
    exact .signedLeast (fun _ => wholeLiteral_of_le (by omega) read) (by omega) more
  case exceeds =>
    refine ⟨_, read, ?_, reads ?_⟩
    · rw [Double.isNegative_iterate_negated, Double.isNegative_of_numeral numeral read,
        Bool.false_xor]
    · rw [← iterate_negated_float]
      exact .signedDigits (fun _ => wholeLiteral_of_le (by omega) read) (by omega) signs

/-- Leading zeros do not matter, and a second sign is the negation of the least whole number. -/
theorem parseExpression_signed_digits_least :
    Numeral.isNumeral "09223372036854775808".toList = true ∧ 2 < ({} : Settings).maxDepth ∧
      parseExpression {} {} "--09223372036854775808" =
        .ok (.apply .neg [.int Int64.minValue]) := by
  have numeral : Numeral.isNumeral "09223372036854775808".toList = true := by decide
  have value : Numeral.value "09223372036854775808".toList = 2 ^ 63 := by decide
  have enough : 2 < ({} : Settings).maxDepth := by decide
  have same : (Source.tokens {} "--09223372036854775808").map Token.word =
      List.replicate 2 (.operator "-") ++ [⟨.integer, "09223372036854775808"⟩] := by
    decide +kernel
  have parsed := (parseExpression_signed_digits numeral enough).2.1 {} same
  exact ⟨numeral, enough, (parsed.2.1 value).2 1 rfl⟩

/-- Between parentheses, the digits are a double, and so is their negative. -/
example : (parseExpression {} {} "-(9223372036854775808)").toOption.any
    (Node.same (.literal (.float ⟨0xC3E0000000000000⟩))) = true := by
  decide +kernel

/-- With an index after them, the digits are a double as well, and the sign is an operation. -/
example : (parseExpression {} {} "-9223372036854775808[0]").toOption.any
    (Node.same (.apply .neg [.apply .index [.literal (.float ⟨0x43E0000000000000⟩), .int 0]])) =
      true := by
  decide +kernel

end ContentSpace
