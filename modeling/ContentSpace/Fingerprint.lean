import ContentSpace.CanonicalText.Basic
import ContentSpace.Digest
import ContentSpace.Text.Extent

/-!
# Fingerprints

The fingerprint of a value is the digest of its canonical text. Values that are the same have the
same text and so the same fingerprint.
-/

namespace ContentSpace

/-- The digest of the canonical text of a value. -/
structure Fingerprint where
  /-- The digest. -/
  digest : Digest
  deriving DecidableEq

namespace Fingerprint

/-- Number of hexadecimal digits in a fingerprint. -/
def hexLength : Nat := 64

/-- The fingerprint of a text that is taken to be canonical. -/
def ofText [Hashing] (text : List Char) : Fingerprint := ⟨Hashing.digest (Text.utf8 text)⟩

/-- The fingerprint of a value. -/
def of [Hashing] (value : Value) : Fingerprint := ofText (CanonicalText.encode value)

/-- The fingerprint in lower-case hexadecimal. -/
def hex (fingerprint : Fingerprint) : String := String.ofList fingerprint.digest.hex

/-- The fingerprint as shown to people. -/
def display (fingerprint : Fingerprint) : String := "Fingerprint(" ++ fingerprint.hex ++ ")"

end Fingerprint

end ContentSpace
