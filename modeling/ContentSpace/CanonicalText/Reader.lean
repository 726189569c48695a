import ContentSpace.CanonicalText.Basic
import ContentSpace.Fault.Basic
import ContentSpace.Text.Extent

/-!
# Reading canonical text

Reading takes one value from the front of the text and leaves the text after it. It refuses every
text that is not canonical. A refusal says what is wrong, where, and how far reading went, so that
a stream can be read on from the place where it stopped.
-/

namespace ContentSpace.CanonicalText

/-- Why reading stopped without a value. -/
structure Refusal where
  /-- What is wrong. -/
  defect : Defect
  /-- The text from the place on that is to blame. -/
  blamed : List Char
  /-- The text that was not read yet. -/
  unread : List Char
  /-- How many arrays and objects were open. -/
  depth : Nat

/-- Something read from the front of a text. -/
structure Taken (α : Type) (source : List Char) where
  /-- What was read. -/
  value : α
  /-- The text after it. -/
  rest : List Char
  /-- The text after it ends the whole text. -/
  suffix : rest <:+ source

namespace Taken

variable {α β : Type} {source : List Char}

/-- What was read, changed by a function. -/
def map (f : α → β) (taken : Taken α source) : Taken β source :=
  ⟨f taken.value, taken.rest, taken.suffix⟩

/-- What was read after one more character. -/
def skip {c : Char} (taken : Taken α source) : Taken α (c :: source) :=
  ⟨taken.value, taken.rest, taken.suffix.trans (List.suffix_cons c source)⟩

/-- What was read after something else. -/
def after {middle : List Char} (later : Taken β middle) (suffix : middle <:+ source) :
    Taken β source :=
  ⟨later.value, later.rest, later.suffix.trans suffix⟩

end Taken

/-- Reads the characters of text up to its closing quote. The refusal of text without one blames
the opening quote. -/
def readChars (opening : List Char) (depth : Nat) :
    (source : List Char) → Except Refusal (Taken (List Char) source)
  | [] => .error ⟨.unterminatedString, opening, [], depth⟩
  | c :: rest =>
    if c = quote then .ok ⟨[], rest, List.suffix_cons c rest⟩
    else if c = escape then
      match rest with
      | [] => .error ⟨.unterminatedString, opening, [], depth⟩
      | d :: rest =>
        if d = quote ∨ d = escape then
          (readChars opening depth rest).map fun taken => (taken.map (d :: ·)).skip.skip
        else .error ⟨.invalidEscape, c :: d :: rest, rest, depth⟩
    else (readChars opening depth rest).map fun taken => (taken.map (c :: ·)).skip

/-- Reads text whose opening quote, the start of `opening`, has been read. -/
def readString (opening : List Char) (depth : Nat) (source : List Char) :
    Except Refusal (Taken String source) :=
  (readChars opening depth source).map fun taken => taken.map String.ofList

/-- Reads the characters of a number up to its end mark. -/
def readNumber (depth : Nat) (source : List Char) :
    Except Refusal (Taken (List Char) source) :=
  let found := source.dropWhile (· != numberEnd)
  match h : found with
  | [] => .error ⟨.unterminatedNumber, source, source, depth⟩
  | c :: rest => .ok ⟨source.takeWhile (· != numberEnd), rest,
      (List.suffix_cons c rest).trans (h ▸ List.dropWhile_suffix _)⟩

/-- Whether text is an integer without needless signs and zeros. -/
def isCanonicalInteger (text : List Char) : Bool :=
  let digits := match text with
    | '-' :: rest => rest
    | _ => text
  Numeral.isNumeral digits && (digits == ['0'] || digits.head? != some '0') &&
    text != ['-', '0']

/-- The number that an integer without needless signs and zeros writes. -/
def integerValue : List Char → Int
  | '-' :: digits => -(Numeral.value digits)
  | digits => Numeral.value digits

/-- Reads an integer whose mark has been read. -/
def readInteger (depth : Nat) (source : List Char) : Except Refusal (Taken Value source) := do
  let taken ← readNumber depth source
  let refuse (defect : Defect) := Except.error ⟨defect, source, taken.rest, depth⟩
  if isCanonicalInteger taken.value then
    let n := integerValue taken.value
    if Int64.minValue.toInt ≤ n ∧ n ≤ Int64.maxValue.toInt then
      .ok (taken.map fun _ => .int (Int64.ofInt n))
    else refuse (.integerOutOfRange (String.ofList taken.value))
  else refuse (.nonCanonicalInteger (String.ofList taken.value))

/-- Reads a double whose mark has been read. Only the text that the double would be written with is
accepted. -/
def readFloat (depth : Nat) (source : List Char) : Except Refusal (Taken Value source) := do
  let taken ← readNumber depth source
  match (Double.ofText? taken.value).filter fun x => x.text == taken.value with
  | some x => .ok (taken.map fun _ => .float x)
  | none => .error ⟨.malformedFloat (String.ofList taken.value), source, taken.rest, depth⟩

/-- Enters an array or object whose opening mark, the start of `opening`, has been read. -/
def enter (limit depth : Nat) (opening source : List Char) : Except Refusal Nat :=
  if depth < limit then .ok (depth + 1)
  else .error ⟨.tooDeep limit, opening, source, depth + 1⟩

mutual

/-- Reads the value that a character starts, in text that follows the character. -/
def readFrom (limit depth : Nat) (first : Char) (source : List Char) :
    Except Refusal (Taken Value source) := do
  if first = nullMark then .ok ⟨.null, source, List.suffix_rfl⟩
  else if first = trueMark then .ok ⟨.bool true, source, List.suffix_rfl⟩
  else if first = falseMark then .ok ⟨.bool false, source, List.suffix_rfl⟩
  else if first = intMark then readInteger depth source
  else if first = floatMark then readFloat depth source
  else if first = quote then
    (readString (first :: source) depth source).map fun taken => taken.map .string
  else if first = arrayOpen then
    let inner ← enter limit depth (first :: source) source
    (readItems limit inner source).map fun taken => taken.map .array
  else if first = objectOpen then
    let inner ← enter limit depth (first :: source) source
    (readFields limit inner none source).map fun taken => taken.map .object
  else .error ⟨.unexpected first, first :: source, source, depth⟩
termination_by (source.length, 1)

/-- Reads items up to the closing mark of their array. -/
def readItems (limit depth : Nat) :
    (source : List Char) → Except Refusal (Taken (List Value) source)
  | [] => .error ⟨.endOfText, [], [], depth⟩
  | c :: rest =>
    if c = arrayClose then .ok ⟨[], rest, List.suffix_cons c rest⟩
    else do
      let item ← readFrom limit depth c rest
      let others ← readItems limit depth item.rest
      .ok ((others.map (item.value :: ·)).after (item.suffix.trans (List.suffix_cons c rest)))
termination_by source => (source.length, 0)
decreasing_by
  · exact Prod.Lex.left _ _ (by simp)
  · exact Prod.Lex.left _ _ (Nat.lt_succ_of_le item.suffix.length_le)

/-- Reads fields up to the closing mark of their object. Each name must stand after the name
before it. -/
def readFields (limit depth : Nat) (previous : Option String) :
    (source : List Char) → Except Refusal (Taken (List (String × Value)) source)
  | [] => .error ⟨.endOfText, [], [], depth⟩
  | c :: rest =>
    if c = objectClose then .ok ⟨[], rest, List.suffix_cons c rest⟩
    else if c = quote then do
      let name ← readString (c :: rest) depth rest
      if previous.any fun earlier => name.value ≤ earlier then
        .error ⟨.unsortedKeys, c :: rest, name.rest, depth⟩
      else
        match h : name.rest with
        | [] => .error ⟨.endOfText, [], [], depth⟩
        | d :: more => do
          let item ← readFrom limit depth d more
          let others ← readFields limit depth (some name.value) item.rest
          .ok ((others.map ((name.value, item.value) :: ·)).after
            (item.suffix.trans ((List.suffix_cons d more).trans
              (h ▸ name.suffix.trans (List.suffix_cons c rest)))))
    else .error ⟨.expectedKey, c :: rest, c :: rest, depth⟩
termination_by source => (source.length, 0)
decreasing_by
  all_goals
    have whole := name.suffix.length_le
    rw [h] at whole
    simp only [List.length_cons] at whole
  · exact Prod.Lex.left _ _ (by simp only [List.length_cons]; omega)
  · have inner := item.suffix.length_le
    exact Prod.Lex.left _ _ (by simp only [List.length_cons]; omega)

end

/-- Reads one value from the front of text. -/
def readValue (limit depth : Nat) (source : List Char) : Except Refusal (Taken Value source) :=
  match source with
  | [] => .error ⟨.endOfText, [], [], depth⟩
  | c :: rest => (readFrom limit depth c rest).map Taken.skip

/-- The fault of a refusal within a text: offsets count the bytes before the place to blame. -/
def Refusal.fault (text : List Char) (refusal : Refusal) : Fault :=
  .malformed refusal.defect (Text.byteCount text - Text.byteCount refusal.blamed)

/-- The value whose canonical text is the whole text. -/
def decode (limit : Nat) (text : List Char) : Except Fault Value :=
  match readValue limit 0 text with
  | .error refusal => .error (refusal.fault text)
  | .ok taken =>
    match taken.rest with
    | [] => .ok taken.value
    | rest => .error (.malformed .trailingText (Text.byteCount text - Text.byteCount rest))

end ContentSpace.CanonicalText
