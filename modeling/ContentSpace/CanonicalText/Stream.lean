import ContentSpace.CanonicalText.Reader

/-!
# Streams of values

Canonical texts can follow one another without separators. A stream reads them one by one and
remembers where it stopped, also after a refusal: it then goes on from there, with as many arrays
and objects open as it had entered.
-/

namespace ContentSpace.CanonicalText

/-- A text that is read value by value. -/
structure Stream where
  /-- The whole text. -/
  text : List Char
  /-- The part that was not read yet. -/
  unread : List Char
  /-- How many arrays and objects are open. -/
  depth : Nat
  /-- How many may be open. -/
  limit : Nat

namespace Stream

/-- A stream at the start of a text. -/
def ofText (limit : Nat) (text : List Char) : Stream := ⟨text, text, 0, limit⟩

/-- The number of bytes before the part that was not read yet. -/
def position (stream : Stream) : Nat :=
  Text.byteCount stream.text - Text.byteCount stream.unread

/-- The next value, or none at the end of the text. -/
def next (stream : Stream) : Except Fault (Option Value) × Stream :=
  match stream.unread with
  | [] => (.ok none, stream)
  | c :: rest =>
    match readFrom stream.limit stream.depth c rest with
    | .ok taken => (.ok (some taken.value), { stream with unread := taken.rest })
    | .error refusal =>
      (.error (refusal.fault stream.text),
        { stream with unread := refusal.unread, depth := refusal.depth })

/-- The answers to a number of requests for the next value, each with the position after it. -/
def answers : Nat → Stream → List (Except Fault (Option Value) × Nat)
  | 0, _ => []
  | count + 1, stream =>
    let (answer, stream) := stream.next
    (answer, stream.position) :: answers count stream

end Stream

end ContentSpace.CanonicalText
