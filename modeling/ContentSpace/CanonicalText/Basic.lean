import ContentSpace.Value.Basic

/-!
# Canonical text

Every value has one canonical text, and the text shows where it ends, so that texts can follow one
another without separators. Null and the truth values are one mark each; a number stands between
its mark and a semicolon; text stands between quotes with the quote and the backslash escaped;
items and fields stand between brackets of their own.
-/

namespace ContentSpace.CanonicalText

/-- The mark of null. -/
def nullMark : Char := '∅'

/-- The mark of true. -/
def trueMark : Char := '⊤'

/-- The mark of false. -/
def falseMark : Char := '⊥'

/-- The mark before an integer. -/
def intMark : Char := 'ℤ'

/-- The mark before a double. -/
def floatMark : Char := 'ℝ'

/-- The mark after a number. -/
def numberEnd : Char := ';'

/-- The mark on both sides of text. -/
def quote : Char := '"'

/-- The mark before an escaped character. -/
def escape : Char := '\\'

/-- The mark before items. -/
def arrayOpen : Char := '⟦'

/-- The mark after items. -/
def arrayClose : Char := '⟧'

/-- The mark before fields. -/
def objectOpen : Char := '⟨'

/-- The mark after fields. -/
def objectClose : Char := '⟩'

/-- The nesting that reading accepts when no other limit is given. -/
def defaultLimit : Nat := 128

/-- The characters of text between its quotes. -/
def encodeChars : List Char → List Char
  | [] => []
  | c :: rest =>
    if c = quote ∨ c = escape then escape :: c :: encodeChars rest else c :: encodeChars rest

/-- Text between its quotes. -/
def encodeString (text : String) : List Char :=
  quote :: encodeChars text.toList ++ [quote]

mutual

/-- The canonical text of a value. -/
def encode : Value → List Char
  | .null => [nullMark]
  | .bool true => [trueMark]
  | .bool false => [falseMark]
  | .int n => intMark :: Numeral.ofInt n.toInt ++ [numberEnd]
  | .float x => floatMark :: x.text ++ [numberEnd]
  | .string text => encodeString text
  | .array items => arrayOpen :: encodeItems items ++ [arrayClose]
  | .object fields => objectOpen :: encodeFields fields ++ [objectClose]

/-- The canonical texts of items in a row. -/
def encodeItems : List Value → List Char
  | [] => []
  | item :: rest => encode item ++ encodeItems rest

/-- The canonical texts of names and values in a row. -/
def encodeFields : List (String × Value) → List Char
  | [] => []
  | (name, item) :: rest => encodeString name ++ encode item ++ encodeFields rest

end

/-- The canonical text of a value as a string. -/
def encodeText (value : Value) : String := String.ofList (encode value)

end ContentSpace.CanonicalText
