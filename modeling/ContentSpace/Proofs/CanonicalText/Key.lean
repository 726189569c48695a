import ContentSpace.Proofs.CanonicalText.SelfDelimiting
import ContentSpace.Proofs.NameMap

/-!
# Canonical text as a key

Two values are the same exactly when their canonical texts are. One direction holds because texts
show where they end, so that a text can only be of one value; the other because a text depends on
nothing that sameness ignores. What a value was made of leaves no trace: neither the order in which
the fields of an object were given nor the word for no number. Values of different kinds and zeros
of different signs have different texts.
-/

namespace ContentSpace.CanonicalText

/-- Values have the same text exactly when they are equal once unified. -/
theorem encode_eq_iff_unified (value other : Value) :
    encode value = encode other ↔ value.unified = other.unified := by
  constructor
  · intro same
    have ends : encode value ++ [] = encode other ++ [] := by rw [same]
    exact (encode_append_inj value other [] [] ends).1
  · intro same
    rw [← encode_unified value, same, encode_unified other]

/-- Values with different texts are different. -/
theorem encode_ne_of_same_eq_false {value other : Value} (apart : value.same other = false) :
    encode value ≠ encode other := by
  intro same
  have equal := (Value.same_iff value other).mpr ((encode_eq_iff_unified value other).mp same)
  rw [apart] at equal
  contradiction

/-- Objects made of pairs are equal when every name has the same last value among the pairs. -/
theorem ofPairs_eq_of_lookup {left right : List (String × Value)}
    (same : ∀ name, left.reverse.lookup name = right.reverse.lookup name) :
    Value.ofPairs left = Value.ofPairs right := by
  have maps : NameMap.ofPairs left = NameMap.ofPairs right := by
    apply NameMap.ext_get?
    intro name
    rw [NameMap.get?_ofPairs, NameMap.get?_ofPairs, same]
  exact congrArg (fun map => Value.object map.fields) maps

/-- Canonical text is a key for values: two values are the same exactly when they have the same
text. Pairs in any order make objects with the same text, as long as each name has the same last
value, and all words for no number have the same text, at any depth. The number one as an integer,
as a double and as text, and zeros of both signs, have different texts. -/
theorem encode_eq_encode_iff :
    (∀ value other : Value, (value == other) = true ↔ encode value = encode other) ∧
    (∀ left right : List (String × Value),
      (∀ name, left.reverse.lookup name = right.reverse.lookup name) →
        encode (.ofPairs left) = encode (.ofPairs right)) ∧
    (∀ x y : Double, x.isNaN = true → y.isNaN = true →
      encode (.float x) = encode (.float y)) ∧
    (∀ value : Value, encode value.unified = encode value) ∧
    [Value.int 1, .float ⟨0x3ff0000000000000⟩, .string "1", .float ⟨0⟩,
      .float ⟨0x8000000000000000⟩].Pairwise fun value other => encode value ≠ encode other := by
  refine ⟨?_, ?_, ?_, encode_unified, ?_⟩
  · intro value other
    rw [Value.beq_iff, encode_eq_iff_unified]
  · intro left right same
    rw [ofPairs_eq_of_lookup same]
  · intro x y noNumber noNumberToo
    apply (encode_eq_iff_unified _ _).mpr
    simp [Value.unified, Double.unified, noNumber, noNumberToo]
  · have apart : [Value.int 1, .float ⟨0x3ff0000000000000⟩, .string "1", .float ⟨0⟩,
        .float ⟨0x8000000000000000⟩].Pairwise fun value other => value.same other = false := by
      decide
    exact apart.imp encode_ne_of_same_eq_false

/-- Two fields given in either order, one of them twice, make one text, whatever the words for no
number inside them. -/
theorem encode_ofPairs_two_orders :
    let first : List (String × Value) := [("a", .null), ("b", .int 2), ("a", .int 1)]
    let second : List (String × Value) := [("a", .int 1), ("b", .int 2)]
    (∀ name, first.reverse.lookup name = second.reverse.lookup name) ∧
      encode (.ofPairs first) = encode (.ofPairs second) ∧
      encode (.float ⟨0x7ff8000000000000⟩) = encode (.float ⟨0xfff0000000000001⟩) := by
  intro first second
  have same : ∀ name, first.reverse.lookup name = second.reverse.lookup name := by
    intro name
    simp only [first, second, List.reverse_cons, List.reverse_nil, List.nil_append,
      List.cons_append, Fields.lookup_cons]
    grind
  exact ⟨same, encode_eq_encode_iff.2.1 first second same,
    encode_eq_encode_iff.2.2.1 _ _ (by decide) (by decide)⟩

end ContentSpace.CanonicalText
