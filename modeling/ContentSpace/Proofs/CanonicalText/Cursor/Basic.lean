import ContentSpace.CanonicalText.Reader
import ContentSpace.Source.Span

/-!
# Reading with a cursor

A cursor reads text in place: it holds the number of bytes that were read and counts the arrays and
objects that are open, both of which change step by step while a value is read. Three things can go
wrong that have no place in the readers: the text can be cut inside a character, more arrays and
objects can be left than were entered, and reading can go on forever. Here each of them halts the
cursor, so that it can be proved that none of them happens. All states of a cursor are kept in mind,
so that what holds of them holds at every moment and not only between values.
-/

namespace ContentSpace.CanonicalText

/-- A cursor at one moment. -/
structure Moment where
  /-- The number of bytes that were read. -/
  position : Nat
  /-- The number of arrays and objects that are open. -/
  depth : Nat
  deriving DecidableEq

/-- A cursor with its earlier moments. -/
structure Cursor where
  /-- The present moment. -/
  now : Moment := ⟨0, 0⟩
  /-- The earlier moments, the latest first. -/
  past : List Moment := []
  deriving DecidableEq

/-- Why a cursor halts. -/
inductive Halt where
  /-- The text is not canonical. -/
  | refused (fault : Fault)
  /-- The text is cut inside a character or behind its end. -/
  | cut
  /-- More arrays and objects are left than were entered. -/
  | underflow
  /-- More steps are taken than the text has room for. -/
  | endless
  deriving DecidableEq

/-- Steps of a cursor. -/
abbrev Walk := EStateM Halt Cursor

namespace Cursor

/-- All moments of a cursor, the present one first. -/
def moments (cursor : Cursor) : List Moment := cursor.now :: cursor.past

/-- The number of bytes that were read. -/
def position : Walk Nat := return (← get).now.position

/-- Comes to another moment. -/
def become (change : Moment → Moment) : Walk Unit :=
  modify fun cursor => ⟨change cursor.now, cursor.moments⟩

/-- Goes forward by a number of bytes. -/
def advance (bytes : Nat) : Walk Unit :=
  become fun now => { now with position := now.position + bytes }

/-- Halts because of a defect at an offset. -/
def refuse {α : Type} (defect : Defect) (offset : Nat) : Walk α :=
  throw (.refused (.malformed defect offset))

/-- Enters an array or object that starts at an offset. -/
def enter (limit start : Nat) : Walk Unit := do
  become fun now => { now with depth := now.depth + 1 }
  if limit < (← get).now.depth then refuse (.tooDeep limit) start

/-- Leaves an array or object. -/
def leave : Walk Unit := do
  match (← get).now.depth with
  | 0 => throw .underflow
  | outer + 1 => become fun now => { now with depth := outer }

section

variable (text : List Char)

/-- The text that was not read yet. -/
def unread : Walk (List Char) := do
  match Span.dropBytes? (← get).now.position text with
  | some rest => return rest
  | none => throw .cut

/-- Reads a character, if there is one. -/
def bump : Walk (Option Char) := do
  match (← unread text).head? with
  | none => return none
  | some c =>
    advance c.utf8Size
    return some c

/-- Reads a certain character if it comes next. -/
def eat (expected : Char) : Walk Bool := do
  if (← unread text).head? = some expected then
    advance expected.utf8Size
    return true
  else return false

/-- Reads the characters of a number with its end mark; the number starts at the offset. -/
def number : Walk (List Char × Nat) := do
  let start ← position
  let rest ← unread text
  match rest.dropWhile (· != numberEnd) with
  | [] => refuse .unterminatedNumber start
  | _ :: _ =>
    let digits := rest.takeWhile (· != numberEnd)
    advance (Text.byteCount digits + numberEnd.utf8Size)
    return (digits, start)

/-- Reads an integer whose mark has been read. -/
def integer : Walk Value := do
  let (digits, start) ← number text
  if isCanonicalInteger digits then
    let n := integerValue digits
    if Int64.minValue.toInt ≤ n ∧ n ≤ Int64.maxValue.toInt then return .int (Int64.ofInt n)
    else refuse (.integerOutOfRange (String.ofList digits)) start
  else refuse (.nonCanonicalInteger (String.ofList digits)) start

/-- Reads a double whose mark has been read. -/
def float : Walk Value := do
  let (digits, start) ← number text
  match (Double.ofText? digits).filter fun x => x.text == digits with
  | some x => return .float x
  | none => refuse (.malformedFloat (String.ofList digits)) start

/-- Reads the characters of text up to its closing quote; the opening quote is at the offset. -/
def chars (start : Nat) : (steps : Nat) → Walk (List Char)
  | 0 => throw .endless
  | steps + 1 => do
    let here ← position
    match ← bump text with
    | none => refuse .unterminatedString start
    | some c =>
      if c = quote then return []
      else if c = escape then
        match ← bump text with
        | none => refuse .unterminatedString start
        | some d =>
          if d = quote ∨ d = escape then return d :: (← chars start steps)
          else refuse .invalidEscape here
      else return c :: (← chars start steps)

/-- Reads text whose opening quote, at the offset, has been read. -/
def string (start steps : Nat) : Walk String := return String.ofList (← chars text start steps)

variable (limit : Nat)

mutual

/-- Reads a value. -/
def value : (steps : Nat) → Walk Value
  | 0 => throw .endless
  | steps + 1 => do
    let start ← position
    match ← bump text with
    | none => refuse .endOfText start
    | some c =>
      if c = nullMark then return .null
      else if c = trueMark then return .bool true
      else if c = falseMark then return .bool false
      else if c = intMark then integer text
      else if c = floatMark then float text
      else if c = quote then return .string (← string text start steps)
      else if c = arrayOpen then
        enter limit start
        let items ← items steps
        leave
        return .array items
      else if c = objectOpen then
        enter limit start
        let fields ← fields none steps
        leave
        return .object fields
      else refuse (.unexpected c) start

/-- Reads items up to the closing mark of their array. -/
def items : (steps : Nat) → Walk (List Value)
  | 0 => throw .endless
  | steps + 1 => do
    if ← eat text arrayClose then return []
    else
      let item ← value steps
      let others ← items steps
      return item :: others

/-- Reads fields up to the closing mark of their object, each with a name after the one before. -/
def fields (previous : Option String) : (steps : Nat) → Walk (List (String × Value))
  | 0 => throw .endless
  | steps + 1 => do
    if ← eat text objectClose then return []
    else
      let start ← position
      if ← eat text quote then
        let name ← string text start steps
        if previous.any fun earlier => name ≤ earlier then refuse .unsortedKeys start
        else
          let item ← value steps
          let others ← fields (some name) steps
          return (name, item) :: others
      else if Text.byteCount text ≤ (← position) then refuse .endOfText start
      else refuse .expectedKey start

end

/-- Reads the next value, or finds the end of the text. -/
def nextValue : Walk (Option Value) := do
  if Text.byteCount text ≤ (← position) then return none
  else return some (← value text limit (2 * text.length + 1))

/-- The answer to a request for the next value, and the cursor after it. -/
def next (cursor : Cursor) : Except Halt (Option Value) × Cursor :=
  match (nextValue text limit).run cursor with
  | .ok answer after => (.ok answer, after)
  | .error halt after => (.error halt, after)

end

end Cursor

end ContentSpace.CanonicalText
