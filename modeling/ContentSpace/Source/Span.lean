import ContentSpace.Fault.Cause
import ContentSpace.Text.Extent

/-!
# Places and spans in source text

A place counts the bytes before it and names a line and a column, both from one; columns count
characters. A span runs from a place to a later offset.
-/

namespace ContentSpace

/-- A place in source text. -/
structure Place where
  /-- The number of bytes before the place. -/
  offset : Nat := 0
  /-- The line, counted from one. -/
  line : Nat := 1
  /-- The column, counted from one. -/
  column : Nat := 1
  deriving DecidableEq

/-- The place after one more character. -/
def Place.next (place : Place) (c : Char) : Place :=
  if c = '\n' then ⟨place.offset + c.utf8Size, place.line + 1, 1⟩
  else ⟨place.offset + c.utf8Size, place.line, place.column + 1⟩

/-- The place after more text. -/
def Place.after (place : Place) (text : List Char) : Place := text.foldl Place.next place

/-- A stretch of source text. -/
structure Span where
  /-- The number of bytes before it. -/
  start : Nat
  /-- The number of bytes before its end. -/
  stop : Nat
  /-- The line of its start. -/
  line : Nat
  /-- The column of its start. -/
  column : Nat
  deriving DecidableEq

namespace Span

/-- The span between two places. -/
def between (first last : Place) : Span := ⟨first.offset, last.offset, first.line, first.column⟩

/-- The span from the start of one span to the end of another. -/
def through (first last : Span) : Span := { first with stop := last.stop }

/-- The text after a number of bytes, unless that cuts a character or the text is too short. -/
def dropBytes? : (count : Nat) → List Char → Option (List Char)
  | 0, text => some text
  | _ + 1, [] => none
  | count + 1, c :: rest =>
    if c.utf8Size ≤ count + 1 then dropBytes? (count + 1 - c.utf8Size) rest else none
termination_by _ text => text.length

/-- The first characters of a text that take a number of bytes, unless that cuts a character or
the text is too short. -/
def takeBytes? : (count : Nat) → List Char → Option (List Char)
  | 0, _ => some []
  | _ + 1, [] => none
  | count + 1, c :: rest =>
    if c.utf8Size ≤ count + 1 then
      (takeBytes? (count + 1 - c.utf8Size) rest).map (c :: ·)
    else none
termination_by _ text => text.length

/-- The text of a span; a span that does not fit the source has none. -/
def text (span : Span) (source : String) : String :=
  if span.start ≤ span.stop then
    ((dropBytes? span.start source.toList).bind (takeBytes? (span.stop - span.start))).elim ""
      String.ofList
  else ""

/-- Line and column of the start. -/
def display (span : Span) : String := countText span.line ++ ":" ++ countText span.column

end Span

end ContentSpace
