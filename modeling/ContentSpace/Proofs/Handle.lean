import ContentSpace.Handle
import ContentSpace.Proofs.Text.Hexadecimal
import ContentSpace.Proofs.Value.Unified

/-!
# Fingerprints and the parts of handles

Fingerprints are determined by their hexadecimal form, and values that are the same have the same
fingerprint. A handle that was made from a tag and a fingerprint has that tag and the digits it was
made with, whatever colons the tag holds.
-/

namespace ContentSpace

namespace Digest

/-- Words are equal when their eight digits are. -/
theorem hexFixed_word_inj {left right : UInt32}
    (same : Text.hexFixed 8 left.toNat = Text.hexFixed 8 right.toNat) : left = right :=
  UInt32.toNat_inj.mp (Text.hexFixed_inj left.toNat_lt right.toNat_lt same)

/-- Lists of words of one length are equal when their digits are. -/
theorem flatMap_hexFixed_inj {left right : List UInt32} (length : left.length = right.length)
    (same : left.flatMap (fun word => Text.hexFixed 8 word.toNat) =
      right.flatMap fun word => Text.hexFixed 8 word.toNat) : left = right := by
  induction left generalizing right with
  | nil => exact (List.eq_nil_of_length_eq_zero length.symm).symm
  | cons word words ih =>
    cases right with
    | nil => simp at length
    | cons other others =>
      rw [List.flatMap_cons, List.flatMap_cons] at same
      obtain ⟨front, later⟩ := List.append_inj same (by simp)
      rw [hexFixed_word_inj front, ih (by simpa using length) later]

/-- Digests are equal when their hexadecimal forms are. -/
theorem hex_inj {left right : Digest} (same : left.hex = right.hex) : left = right := by
  have words := flatMap_hexFixed_inj (by simp [words]) same
  cases left
  cases right
  simpa [Digest.words] using words

/-- The hexadecimal form of a digest holds no colon. -/
theorem colon_not_mem_hex (digest : Digest) : ':' ∉ digest.hex := by
  intro member
  obtain ⟨word, -, inside⟩ := List.mem_flatMap.mp member
  exact Text.colon_not_mem_hexFixed 8 word.toNat inside

end Digest

namespace Fingerprint

/-- Fingerprints are equal when their hexadecimal forms are. -/
theorem hex_inj {left right : Fingerprint} (same : left.hex = right.hex) : left = right := by
  have digits : left.digest.hex = right.digest.hex := String.ofList_injective same
  exact congrArg Fingerprint.mk (Digest.hex_inj digits)

/-- Values that are the same have the same fingerprint. -/
theorem of_eq_of_beq [Hashing] {left right : Value} (same : (left == right) = true) :
    of left = of right := by
  rw [of, of, ← CanonicalText.encode_unified left, ← CanonicalText.encode_unified right,
    (Value.beq_iff left right).mp same]

end Fingerprint

namespace Handle

/-- Without a colon there is nothing to split. -/
theorem splitLast_eq_none {text : List Char} (absent : ':' ∉ text) : splitLast text = none := by
  induction text with
  | nil => rfl
  | cons c rest ih =>
    rw [List.mem_cons, not_or] at absent
    rw [splitLast, ih absent.2]
    simp [Ne.symm absent.1]

/-- The last colon stands before what holds no colon. -/
theorem splitLast_append {after : List Char} (absent : ':' ∉ after) (before : List Char) :
    splitLast (before ++ ':' :: after) = some (before, after) := by
  induction before with
  | nil => simp [splitLast, splitLast_eq_none absent]
  | cons c rest ih => rw [List.cons_append, splitLast, ih]

/-- The parts of a handle are what it was made from. -/
theorem splitLast_mint (tag : String) (fingerprint : Fingerprint) (length : Nat) :
    splitLast (mint tag fingerprint length).text.toList =
      some (tag.toList, fingerprint.digest.hex.take length) := by
  rw [mint, String.toList_ofList]
  apply splitLast_append
  intro member
  exact fingerprint.digest.colon_not_mem_hex (List.mem_of_mem_take member)

/-- A handle has the tag it was made with. -/
@[simp] theorem tag_mint (tag : String) (fingerprint : Fingerprint) (length : Nat) :
    (mint tag fingerprint length).tag = tag := by
  rw [Handle.tag, splitLast_mint, Option.elim_some, String.ofList_toList]

/-- A handle has the digits it was made with. -/
@[simp] theorem digest_mint (tag : String) (fingerprint : Fingerprint) (length : Nat) :
    (mint tag fingerprint length).digest =
      String.ofList (fingerprint.digest.hex.take length) := by
  rw [Handle.digest, splitLast_mint, Option.elim_some]

/-- Handles with the same text are the same. -/
theorem text_inj {left right : Handle} (same : left.text = right.text) : left = right :=
  congrArg Handle.mk same

end Handle

end ContentSpace
