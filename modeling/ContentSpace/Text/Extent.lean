/-!
# Extent of text in bytes

Offsets into text count bytes of its UTF-8 form, while text is read character by character.
-/

namespace ContentSpace.Text

/-- Number of bytes that the characters take in UTF-8. -/
def byteCount : List Char → Nat
  | [] => 0
  | c :: rest => c.utf8Size + byteCount rest

/-- No characters take no bytes. -/
@[simp] theorem byteCount_nil : byteCount [] = 0 := rfl

/-- A character takes its own bytes. -/
@[simp] theorem byteCount_cons (c : Char) (rest : List Char) :
    byteCount (c :: rest) = c.utf8Size + byteCount rest := rfl

/-- The extent of two texts in a row is the sum of their extents. -/
@[simp] theorem byteCount_append (left right : List Char) :
    byteCount (left ++ right) = byteCount left + byteCount right := by
  induction left with
  | nil => simp
  | cons c rest ih => simp [ih, Nat.add_assoc]

/-- The bytes of the characters in UTF-8. -/
def utf8 (text : List Char) : List UInt8 :=
  text.flatMap String.utf8EncodeChar

end ContentSpace.Text
