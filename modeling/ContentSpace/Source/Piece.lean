import ContentSpace.Source.Settings
import ContentSpace.Source.Token
import ContentSpace.Text.Blank

/-!
# Pieces of source text

Source text falls into pieces: blanks, comments, tokens, and characters at which no token starts.
The first character of a piece decides what kind of piece it is and how far it reaches. Every text
falls into pieces; a string, a blob or a comment without an end reaches to the end of the text.
-/

namespace ContentSpace.Source

/-- Words that are always keywords. -/
def reservedWords : List String := [
  "program", "block", "let", "local", "if", "else", "while", "for", "in", "return", "assert",
  "latent", "table", "value", "snapshot", "match", "guard", "batch", "resolve", "scope", "using",
  "collapse", "true", "false", "null", "new"]

/-- The operators, longer ones before those they start with. -/
def operators : List String := [
  "!~=", "|>", "||", "&&", "==", "!=", "~=", "<=", ">=", "<", ">", "+", "-", "*", "/", "!", "="]

/-- The punctuation characters. -/
def symbols : List Char := ['(', ')', '\x7b', '\x7d', '[', ']', ',', ';', ':', '.', '@']

/-- How far a piece reaches after its first character, and the token it is, if it is one. -/
structure Extent where
  /-- The number of characters after the first. -/
  length : Nat
  /-- Kind and text of the token. -/
  token : Option (TokenKind × List Char) := none

/-- The characters of a string after its opening quote, and whether its closing quote follows. A
backslash keeps the character after it in the string. -/
def stringBody : List Char → List Char × Bool
  | [] => ([], false)
  | '"' :: _ => ([], true)
  | '\\' :: c :: rest =>
    let (body, closed) := stringBody rest
    ('\\' :: c :: body, closed)
  | c :: rest =>
    let (body, closed) := stringBody rest
    (c :: body, closed)

/-- The number of characters up to the brace that closes a blob, or to the end of the text. Braces
inside strings do not count. -/
def blobLength : (depth : Nat) → (quoted : Bool) → List Char → Nat
  | _, _, [] => 0
  | depth, true, '\\' :: _ :: rest => blobLength depth true rest + 2
  | depth, true, c :: rest => blobLength depth (c != '"') rest + 1
  | depth, false, c :: rest =>
    if c = '"' then blobLength depth true rest + 1
    else if c = '\x7b' then blobLength (depth + 1) false rest + 1
    else if c = '\x7d' then (if depth ≤ 1 then 1 else blobLength (depth - 1) false rest + 1)
    else blobLength depth false rest + 1

/-- Whether text after an opening brace makes it a blob: digits and a colon. -/
def startsBlob (rest : List Char) : Bool :=
  !(rest.takeWhile Char.isDigit).isEmpty && (rest.dropWhile Char.isDigit).head? == some ':'

/-- The digits of the fraction in text after a whole number. -/
def fraction : List Char → List Char
  | '.' :: rest => rest.takeWhile Char.isDigit
  | _ => []

/-- Whether a character may stand inside a name. -/
def isWordChar (c : Char) : Bool := c.isAlphanum || c == '_' || c == '.'

/-- The number of characters up to the end mark of a comment. -/
def commentLength : List Char → Nat
  | [] => 0
  | '*' :: '/' :: _ => 2
  | _ :: rest => commentLength rest + 1

/-- A number, from its first digit on. -/
def numberExtent (first : Char) (rest : List Char) : Extent :=
  let whole := rest.takeWhile Char.isDigit
  match fraction (rest.dropWhile Char.isDigit) with
  | [] => ⟨whole.length, some (.integer, first :: whole)⟩
  | digits => ⟨whole.length + 1 + digits.length, some (.float, first :: whole ++ '.' :: digits)⟩

/-- A word, from its first letter on. -/
def wordExtent (settings : Settings) (first : Char) (rest : List Char) : Extent :=
  let word := first :: rest.takeWhile isWordChar
  let text := String.ofList word
  let kind := if reservedWords.contains text || settings.isPrivileged text then .keyword
    else .identifier
  ⟨word.length - 1, some (kind, word)⟩

/-- The longest operator that starts at a character; a character that starts none is no token. -/
def operatorExtent (first : Char) (rest : List Char) : Extent :=
  match operators.find? fun operator => operator.toList.isPrefixOf (first :: rest) with
  | some operator => ⟨operator.toList.length - 1, some (.operator, operator.toList)⟩
  | none => ⟨0, none⟩

/-- The piece that a character starts. -/
def extent (settings : Settings) (first : Char) (rest : List Char) : Extent :=
  if Text.isBlank first then ⟨0, none⟩
  else if first = '/' ∧ rest.head? = some '/' then ⟨(rest.takeWhile (· != '\n')).length, none⟩
  else if first = '/' ∧ rest.head? = some '*' then ⟨1 + commentLength rest.tail, none⟩
  else if first = '"' then
    let (body, closed) := stringBody rest
    ⟨body.length + (if closed then 1 else 0), some (.string, body)⟩
  else if first = '\x7b' ∧ startsBlob rest then
    let length := blobLength 1 false rest
    ⟨length, some (.blob, first :: rest.take length)⟩
  else if first.isDigit then numberExtent first rest
  else if first.isAlpha || first == '_' then wordExtent settings first rest
  else if symbols.contains first then ⟨0, some (.symbol, [first])⟩
  else operatorExtent first rest

/-- A piece of source text. -/
structure Piece where
  /-- The characters of the piece. -/
  raw : List Char
  /-- Kind and text of the token, if the piece is one. -/
  token : Option (TokenKind × List Char)

/-- The pieces of source text. -/
def pieces (settings : Settings) : List Char → List Piece
  | [] => []
  | c :: rest =>
    let found := extent settings c rest
    ⟨c :: rest.take found.length, found.token⟩ :: pieces settings (rest.drop found.length)
termination_by source => source.length
decreasing_by simp only [List.length_drop, List.length_cons]; omega

/-- The pieces, put together, are the source. -/
theorem flatMap_raw_pieces (settings : Settings) (source : List Char) :
    (pieces settings source).flatMap Piece.raw = source := by
  induction source using pieces.induct settings with
  | case1 => simp [pieces]
  | case2 c rest found ih =>
    rw [pieces, List.flatMap_cons, ih]
    simp [found]

/-- The tokens among pieces that start at a place. -/
def tokensOf (place : Place) : List Piece → List Token
  | [] => []
  | piece :: rest =>
    let last := place.after piece.raw
    match piece.token with
    | some (kind, text) => ⟨kind, String.ofList text, .between place last⟩ :: tokensOf last rest
    | none => tokensOf last rest

/-- The tokens of source text without its end. -/
def tokens (settings : Settings) (source : String) : List Token :=
  tokensOf {} (pieces settings source.toList)

/-- The token for the end of source text. -/
def endToken (source : String) : Token :=
  let place := Place.after {} source.toList
  ⟨.finish, "", .between place place⟩

end ContentSpace.Source
