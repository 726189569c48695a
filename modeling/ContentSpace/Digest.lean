import ContentSpace.Bytes
import ContentSpace.Text.Hexadecimal

/-!
# Digests

The digest of a message is eight words of 32 bits. Which function digests messages is left open:
what is stored and found depends on it through `Hashing` alone, and every digest has 64 digits
whatever the function is.
-/

namespace ContentSpace

/-- Eight words. -/
structure Digest where
  /-- First word. -/
  a : UInt32
  /-- Second word. -/
  b : UInt32
  /-- Third word. -/
  c : UInt32
  /-- Fourth word. -/
  d : UInt32
  /-- Fifth word. -/
  e : UInt32
  /-- Sixth word. -/
  f : UInt32
  /-- Seventh word. -/
  g : UInt32
  /-- Eighth word. -/
  h : UInt32
  deriving DecidableEq

namespace Digest

/-- The words of a digest in order. -/
def words (digest : Digest) : List UInt32 :=
  [digest.a, digest.b, digest.c, digest.d, digest.e, digest.f, digest.g, digest.h]

/-- The digest in lower-case hexadecimal. -/
def hex (digest : Digest) : List Char :=
  digest.words.flatMap fun word => Text.hexFixed 8 word.toNat

/-- The hexadecimal form of a digest has 64 digits. -/
@[simp] theorem length_hex (digest : Digest) : digest.hex.length = 64 := by
  simp [hex, words]

end Digest

/-- A function that digests messages. -/
class Hashing where
  /-- The digest of a message. -/
  digest (message : List UInt8) : Digest

end ContentSpace
