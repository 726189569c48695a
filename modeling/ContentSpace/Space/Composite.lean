import ContentSpace.Space.Basic

/-!
# Composite content

Several contents can be stored as one object whose fields are numbered, and an array or such an
object can be stored again part by part. The name of a numbered field is an at sign and a number.
-/

namespace ContentSpace.Space

/-- The name of the field at a position. -/
def positionName (position : Nat) : String :=
  String.ofList ('@' :: Numeral.digits position)

/-- The position that the name of a field stands for: after the at sign and an optional plus sign
come digits, leading zeros included, of a number below two to the 64th. -/
def position? (name : String) : Option Nat :=
  match name.toList with
  | '@' :: rest =>
    let digits := match rest with
      | '+' :: digits => digits
      | _ => rest
    if Numeral.isNumeral digits then
      let position := Numeral.value digits
      if position < UInt64.size then some position else none
    else none
  | _ => none

/-- The numbered fields of an object by ascending position; fields of one position keep their
order. -/
def numberedParts (fields : List (String × Value)) : List Value :=
  let numbered := fields.filterMap fun field => (position? field.1).map (·, field.2)
  (numbered.mergeSort fun left right => left.1 ≤ right.1).map Prod.snd

/-- The parts of an array or object. -/
def parts : Value → Except Fault (List Value)
  | .array items => .ok items
  | .object fields => .ok (numberedParts fields)
  | other => .error (.wrongKind .object other.kind)

/-- Stores the object whose numbered fields are the contents that keys stand for. -/
def compose [Hashing] (space : Space) (name tag : String) (keys : List String) :
    Except Fault Handle × Space :=
  match space.resolveAll name keys with
  | .error fault => (.error fault, space)
  | .ok contents =>
    let pairs := contents.zipIdx.map fun (content, position) => (positionName position, content)
    space.collapse name tag (.ofPairs pairs)

/-- Stores every part of an array or object with the tag of the whole. -/
def decompose [Hashing] (space : Space) (name key : String) : Except Fault (List Handle) × Space :=
  match space.lookup name key with
  | .error fault => (.error fault, space)
  | .ok entry =>
    match parts entry.value with
    | .error fault => (.error fault, space)
    | .ok values => space.collapseAll name entry.tag values

/-- One field of an object, or one item of an array by the name of its position; null if there is
no such part. -/
def project (space : Space) (name key field : String) : Except Fault Value := do
  let entry ← space.lookup name key
  match entry.value with
  | .object fields => .ok (.ofOption (fields.lookup field))
  | .array items => .ok (.ofOption ((position? field).bind (items[·]?)))
  | other => .error (.wrongKind .object other.kind)

end ContentSpace.Space
