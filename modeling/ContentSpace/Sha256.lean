import ContentSpace.Digest

/-!
# SHA-256

The program digests messages with SHA-256. The message is padded to whole blocks of sixteen words,
each block is expanded to one word for each of 64 rounds, and the rounds mix the words of a block
into the digest of the blocks before it.
-/

namespace ContentSpace

namespace Digest

/-- The digest before the first block. -/
def initial : Digest :=
  ⟨0x6a09e667, 0xbb67ae85, 0x3c6ef372, 0xa54ff53a, 0x510e527f, 0x9b05688c, 0x1f83d9ab, 0x5be0cd19⟩

/-- One constant for each round. -/
def roundConstants : List UInt32 := [
  0x428a2f98, 0x71374491, 0xb5c0fbcf, 0xe9b5dba5, 0x3956c25b, 0x59f111f1, 0x923f82a4, 0xab1c5ed5,
  0xd807aa98, 0x12835b01, 0x243185be, 0x550c7dc3, 0x72be5d74, 0x80deb1fe, 0x9bdc06a7, 0xc19bf174,
  0xe49b69c1, 0xefbe4786, 0x0fc19dc6, 0x240ca1cc, 0x2de92c6f, 0x4a7484aa, 0x5cb0a9dc, 0x76f988da,
  0x983e5152, 0xa831c66d, 0xb00327c8, 0xbf597fc7, 0xc6e00bf3, 0xd5a79147, 0x06ca6351, 0x14292967,
  0x27b70a85, 0x2e1b2138, 0x4d2c6dfc, 0x53380d13, 0x650a7354, 0x766a0abb, 0x81c2c92e, 0x92722c85,
  0xa2bfe8a1, 0xa81a664b, 0xc24b8b70, 0xc76c51a3, 0xd192e819, 0xd6990624, 0xf40e3585, 0x106aa070,
  0x19a4c116, 0x1e376c08, 0x2748774c, 0x34b0bcb5, 0x391c0cb3, 0x4ed8aa4a, 0x5b9cca4f, 0x682e6ff3,
  0x748f82ee, 0x78a5636f, 0x84c87814, 0x8cc70208, 0x90befffa, 0xa4506ceb, 0xbef9a3f7, 0xc67178f2]

/-- A word turned to the right. -/
def rotated (word : UInt32) (count : UInt32) : UInt32 :=
  (word >>> count) ||| (word <<< (32 - count))

/-- The mixing of an earlier word of a block into a later one. -/
def expandLow (word : UInt32) : UInt32 :=
  rotated word 7 ^^^ rotated word 18 ^^^ (word >>> 3)

/-- The mixing of a recent word of a block into a later one. -/
def expandHigh (word : UInt32) : UInt32 :=
  rotated word 17 ^^^ rotated word 19 ^^^ (word >>> 10)

/-- The words of a block followed by further words, each made from the sixteen before it. -/
def expanded : (count : Nat) → (window : List UInt32) → List UInt32
  | 0, window => window
  | count + 1, window =>
    let word := expandHigh (window.getD 14 0) + window.getD 9 0 +
      expandLow (window.getD 1 0) + window.getD 0 0
    window.head?.toList ++ expanded count (window.tail ++ [word])

/-- One round, with its constant and its word of the block. -/
def round (state : Digest) (input : UInt32 × UInt32) : Digest :=
  let high := rotated state.e 6 ^^^ rotated state.e 11 ^^^ rotated state.e 25
  let choice := (state.e &&& state.f) ^^^ (~~~state.e &&& state.g)
  let first := state.h + high + choice + input.1 + input.2
  let low := rotated state.a 2 ^^^ rotated state.a 13 ^^^ rotated state.a 22
  let majority := (state.a &&& state.b) ^^^ (state.a &&& state.c) ^^^ (state.b &&& state.c)
  ⟨first + (low + majority), state.a, state.b, state.c, state.d + first, state.e, state.f, state.g⟩

/-- The sum of two states, word by word. -/
def sum (left right : Digest) : Digest :=
  ⟨left.a + right.a, left.b + right.b, left.c + right.c, left.d + right.d,
    left.e + right.e, left.f + right.f, left.g + right.g, left.h + right.h⟩

/-- The digest after one more block. -/
def absorb (digest : Digest) (block : List UInt32) : Digest :=
  digest.sum ((roundConstants.zip (expanded 48 block)).foldl round digest)

/-- The message followed by a one bit, zeros up to the last eight bytes of a block, and its length
in bits. -/
def padded (message : List UInt8) : List UInt8 :=
  message ++ 0x80 :: List.replicate ((119 - message.length % 64) % 64) 0 ++
    Bytes.bigEndian 8 (8 * message.length)

/-- The words that bytes make in groups of four; bytes that fill no group are left out. -/
def wordsOfBytes : List UInt8 → List UInt32
  | a :: b :: c :: d :: rest =>
    ((a.toUInt32 <<< 24) ||| (b.toUInt32 <<< 16) ||| (c.toUInt32 <<< 8) ||| d.toUInt32) ::
      wordsOfBytes rest
  | _ => []

/-- Words in blocks of sixteen. -/
def blocks : List UInt32 → List (List UInt32)
  | [] => []
  | word :: rest => (word :: rest.take 15) :: blocks (rest.drop 15)
termination_by words => words.length
decreasing_by simp only [List.length_drop, List.length_cons]; omega

/-- The digest of a message. -/
def ofBytes (message : List UInt8) : Digest :=
  (blocks (wordsOfBytes (padded message))).foldl absorb initial

end Digest

instance : Hashing := ⟨Digest.ofBytes⟩

end ContentSpace
