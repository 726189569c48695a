import ContentSpace.Value.Basic

/-!
# Equality of values

Two values are the same when they have the same kind and content. All words for no number are one
number here, while zeros of either sign stay apart. What a hash is computed from depends on the
same things, so equal values are hashed alike.
-/

namespace ContentSpace.Value

mutual

/-- Whether two values are the same. -/
def same : Value → Value → Bool
  | null, null => true
  | bool left, bool right => left == right
  | int left, int right => left == right
  | float left, float right => left.unified == right.unified
  | string left, string right => left == right
  | array left, array right => sameItems left right
  | object left, object right => sameFields left right
  | _, _ => false

/-- Whether two lists hold the same items. -/
def sameItems : List Value → List Value → Bool
  | [], [] => true
  | left :: lefts, right :: rights => same left right && sameItems lefts rights
  | _, _ => false

/-- Whether two lists hold the same fields. -/
def sameFields : List (String × Value) → List (String × Value) → Bool
  | [], [] => true
  | (name, left) :: lefts, (other, right) :: rights =>
    name == other && same left right && sameFields lefts rights
  | _, _ => false

end

instance : BEq Value := ⟨same⟩

/-- One thing that a hash takes in. -/
inductive HashWrite where
  /-- Which kind of value follows. -/
  | kind (kind : Kind)
  /-- A truth value. -/
  | flag (b : Bool)
  /-- An integer. -/
  | integer (n : Int64)
  /-- The bits of a double. -/
  | word (bits : UInt64)
  /-- Text, of a value or of a name. -/
  | text (text : String)
  /-- How many items or fields follow. -/
  | count (size : Nat)
  deriving DecidableEq

mutual

/-- What a hash takes in for a value, in order. -/
def hashWrites : Value → List HashWrite
  | null => [.kind .null]
  | bool b => [.kind .bool, .flag b]
  | int n => [.kind .int, .integer n]
  | float x => [.kind .float, .word x.unified.bits]
  | string text => [.kind .string, .text text]
  | array items => .kind .array :: .count items.length :: hashWritesItems items
  | object fields => .kind .object :: .count fields.length :: hashWritesFields fields

/-- What a hash takes in for items. -/
def hashWritesItems : List Value → List HashWrite
  | [] => []
  | item :: rest => hashWrites item ++ hashWritesItems rest

/-- What a hash takes in for fields. -/
def hashWritesFields : List (String × Value) → List HashWrite
  | [] => []
  | (name, item) :: rest => .text name :: hashWrites item ++ hashWritesFields rest

end

end ContentSpace.Value
