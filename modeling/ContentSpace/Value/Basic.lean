import ContentSpace.Fields
import ContentSpace.Number.DoubleText

/-!
# Values

A value is what a space stores: null, a truth value, an integer of 64 bits, a double, text, an
array, or an object whose fields are named. The fields of an object are kept in the order of their
names. `Value.object` lists them as they are; `Value.ofPairs` builds an object from pairs in any
order, and `Value.Ordered` says that every object inside a value lists its fields in order.
-/

namespace ContentSpace

/-- A stored value. -/
inductive Value where
  /-- No value. -/
  | null
  /-- A truth value. -/
  | bool (b : Bool)
  /-- A whole number of 64 bits. -/
  | int (n : Int64)
  /-- A double-precision number. -/
  | float (x : Double)
  /-- Text. -/
  | string (text : String)
  /-- Values by position. -/
  | array (items : List Value)
  /-- Values by name. -/
  | object (fields : List (String × Value))

/-- The kinds of values. -/
inductive Kind where
  | null
  | bool
  | int
  | float
  | string
  | array
  | object
  deriving DecidableEq

namespace Kind

/-- The name of a kind in messages. -/
def name : Kind → String
  | null => "null"
  | bool => "bool"
  | int => "int"
  | float => "float"
  | string => "string"
  | array => "array"
  | object => "object"

/-- All kinds. -/
def all : List Kind := [null, bool, int, float, string, array, object]

/-- The kind with a name. -/
def ofName? (text : String) : Option Kind := all.find? fun kind => kind.name == text

end Kind

namespace Value

instance : Inhabited Value := ⟨null⟩

/-- The kind of a value. -/
def kind : Value → Kind
  | null => .null
  | bool _ => .bool
  | int _ => .int
  | float _ => .float
  | string _ => .string
  | array _ => .array
  | object _ => .object

/-- The object of pairs in any order; the last pair of a name counts. -/
def ofPairs (pairs : List (String × Value)) : Value := object (Fields.ofPairs pairs)

/-- The number stored for a double computed elsewhere: all words for no number become one. -/
def ofDouble (x : Double) : Value := float x.unified

/-- The value of an optional one, null standing for its absence. -/
def ofOption (value : Option Value) : Value := value.getD null

/-- Whether a value is null. -/
def isNull : Value → Bool
  | null => true
  | _ => false

/-- Whether a value counts as true: all do but null and false. -/
def isTruthy : Value → Bool
  | null | bool false => false
  | _ => true

/-- The truth value, if the value is one. -/
def asBool? : Value → Option Bool
  | bool b => some b
  | _ => none

/-- The integer, if the value is one. -/
def asInt? : Value → Option Int64
  | int n => some n
  | _ => none

/-- The double, if the value is one. -/
def asFloat? : Value → Option Double
  | float x => some x
  | _ => none

/-- The text, if the value is text. -/
def asString? : Value → Option String
  | string text => some text
  | _ => none

/-- The items, if the value is an array. -/
def asArray? : Value → Option (List Value)
  | array items => some items
  | _ => none

/-- The fields, if the value is an object. -/
def asObject? : Value → Option (List (String × Value))
  | object fields => some fields
  | _ => none

/-- The field of an object with a name. -/
def field? (value : Value) (name : String) : Option Value :=
  value.asObject?.bind (·.lookup name)

/-- The item of an array at a position. -/
def item? (value : Value) (position : Nat) : Option Value :=
  value.asArray?.bind (·[position]?)

mutual

/-- Nesting of arrays and objects; an empty one is one level deep. -/
def depth : Value → Nat
  | array items => depthItems items + 1
  | object fields => depthFields fields + 1
  | _ => 0

/-- The greatest nesting among items. -/
def depthItems : List Value → Nat
  | [] => 0
  | item :: rest => max item.depth (depthItems rest)

/-- The greatest nesting among fields. -/
def depthFields : List (String × Value) → Nat
  | [] => 0
  | (_, item) :: rest => max item.depth (depthFields rest)

end

mutual

/-- Every object inside the value lists its fields by ascending names. -/
def Ordered : Value → Prop
  | array items => OrderedItems items
  | object fields => Fields.Ascending fields ∧ OrderedFields fields
  | _ => True

/-- Every item is ordered. -/
def OrderedItems : List Value → Prop
  | [] => True
  | item :: rest => item.Ordered ∧ OrderedItems rest

/-- The value of every field is ordered. -/
def OrderedFields : List (String × Value) → Prop
  | [] => True
  | (_, item) :: rest => item.Ordered ∧ OrderedFields rest

end

end Value

end ContentSpace
