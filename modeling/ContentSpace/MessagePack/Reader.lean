import ContentSpace.MessagePack.Basic
import ContentSpace.MessagePack.Library

/-!
# Reading typed items

A reader takes one thing of a known type from the front of bytes. It is generous about the form:
texts may be binary strings, names may be numbers, doubles may be any number. The number of arrays,
maps and extensions that may still be entered bounds the nesting.
-/

namespace ContentSpace.MessagePack

/-- How many arrays, maps and extensions may be inside one another. -/
def nestingLimit : Nat := 1023

/-- The text that bytes spell in UTF-8. -/
def textOfBytes? (bytes : List UInt8) : Option String :=
  String.fromUTF8? (ByteArray.mk bytes.toArray)

/-- As many things in a row as asked for. -/
def readMany {α : Type} (item : Reader α) : Nat → Reader (List α)
  | 0, bytes => some ([], bytes)
  | count + 1, bytes => do
    let (first, rest) ← item bytes
    let (others, rest) ← readMany item count rest
    some (first :: others, rest)

/-- Two things in a row. -/
def readPair {α β : Type} (first : Reader α) (second : Reader β) : Reader (α × β) := fun bytes => do
  let (left, rest) ← first bytes
  let (right, rest) ← second rest
  some ((left, right), rest)

/-- Passes over one item of any type. -/
def skip : (room : Nat) → Reader Unit
  | 0, bytes => do
    match ← readHead bytes with
    | (.array _, _) | (.map _, _) | (.extension _, _) => none
    | (_, rest) => some ((), rest)
  | room + 1, bytes => do
    match ← readHead bytes with
    | (.array count, rest) => (readMany (skip room) count rest).map fun (_, rest) => ((), rest)
    | (.map count, rest) =>
      (readMany (readPair (skip room) (skip room)) count rest).map fun (_, rest) => ((), rest)
    | (.extension length, rest) =>
      (Bytes.split? (length + 1) rest).map fun (_, rest) => ((), rest)
    | (_, rest) => some ((), rest)

/-- A truth value. -/
def readBool : Reader Bool := fun bytes => do
  match ← readHead bytes with
  | (.bool b, rest) => some (b, rest)
  | _ => none

/-- An integer of 64 bits. -/
def readInt : Reader Int64 := fun bytes => do
  match ← readHead bytes with
  | (.unsigned n, rest) => if n < 0x8000000000000000 then some (Int64.ofNat n, rest) else none
  | (.signed n, rest) => some (Int64.ofInt n, rest)
  | _ => none

/-- A double, also from a single-precision number or from an integer. -/
def readDouble : Reader Double := fun bytes => do
  match ← readHead bytes with
  | (.double bits, rest) => some (⟨bits⟩, rest)
  | (.single bits, rest) => some (.ofSingle bits, rest)
  | (.unsigned n, rest) => some (.ofInt n, rest)
  | (.signed n, rest) => some (.ofInt n, rest)
  | _ => none

/-- A text, also from a binary string. -/
def readText : Reader String := fun bytes => do
  match ← readHead bytes with
  | (.text content, rest) | (.binary content, rest) =>
    (textOfBytes? content).map (·, rest)
  | _ => none

/-- Something that may be absent, which nothing stands for. -/
def readOptional {α : Type} (item : Reader α) : Reader (Option α) := fun bytes =>
  match readHead bytes with
  | some (.nothing, rest) => some (none, rest)
  | _ => (item bytes).map fun (found, rest) => (some found, rest)

/-- Things in an array that may still be entered. An empty binary string is an empty array. -/
def readArray {α : Type} (room : Nat) (item : Reader α) : Reader (List α) := fun bytes => do
  match ← readHead bytes with
  | (.array count, rest) => if room = 0 then none else readMany item count rest
  | (.binary [], rest) => some ([], rest)
  | _ => none

/-- Pairs in a map that may still be entered. -/
def readMap {α β : Type} (room : Nat) (key : Reader α) (item : Reader β) : Reader (List (α × β)) :=
  fun bytes => do
    match ← readHead bytes with
    | (.map count, rest) => if room = 0 then none else readMany (readPair key item) count rest
    | _ => none

/-- A name among those expected, by its place among them; none stands for another name. A name may
be written as its place. -/
def nameOf? (names : List String) : Head → Option (Option Nat)
  | .unsigned n => some (if n < names.length then some n else none)
  | .text content | .binary content =>
    some ((textOfBytes? content).bind fun text => names.idxOf? text)
  | _ => none

end ContentSpace.MessagePack
