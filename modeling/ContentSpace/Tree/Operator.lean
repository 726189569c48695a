/-!
# Operations of the language

Primitive operations compute with values; store operations work on tables. Both have stable names.
A store operation takes its main operand in one place, which a pipeline can fill.
-/

namespace ContentSpace

/-- An operation on values. -/
inductive Primitive where
  | add
  | sub
  | mul
  | div
  | eq
  | ne
  | lt
  | le
  | gt
  | ge
  | and
  | or
  | not
  | neg
  /-- Both operands stand for the same stored content. -/
  | contentEq
  /-- The operands stand for different stored contents. -/
  | contentNe
  | index
  | field
  | makeArray
  /-- Names and values of fields, in turn. -/
  | makeObject
  | arrayLength
  | arrayGet
  | arrayPush
  | keys
  | assert
  /-- Application of a pipeline stage that is no call. -/
  | apply
  | print
  deriving DecidableEq

namespace Primitive

/-- All primitive operations. -/
def all : List Primitive := [
  add, sub, mul, div, eq, ne, lt, le, gt, ge, and, or, not, neg, contentEq, contentNe, index, field,
  makeArray, makeObject, arrayLength, arrayGet, arrayPush, keys, assert, apply, print]

/-- The stable name of a primitive operation. -/
def name : Primitive → String
  | add => "add"
  | sub => "sub"
  | mul => "mul"
  | div => "div"
  | eq => "eq"
  | ne => "ne"
  | lt => "lt"
  | le => "le"
  | gt => "gt"
  | ge => "ge"
  | and => "and"
  | or => "or"
  | not => "not"
  | neg => "neg"
  | contentEq => "ls_eq"
  | contentNe => "ls_ne"
  | index => "index"
  | field => "field"
  | makeArray => "array"
  | makeObject => "object"
  | arrayLength => "len"
  | arrayGet => "get"
  | arrayPush => "push"
  | keys => "keys"
  | assert => "assert"
  | apply => "apply"
  | print => "print"

/-- The primitive operation with a name. -/
def ofName? (text : String) : Option Primitive := all.find? fun primitive => primitive.name == text

/-- The binary operators with their strength and their operation; stronger ones bind tighter. -/
def binaryOperators : List (String × Nat × Primitive) := [
  ("||", 1, or), ("&&", 2, and),
  ("==", 3, eq), ("!=", 3, ne), ("~=", 3, contentEq), ("!~=", 3, contentNe),
  ("<", 4, lt), ("<=", 4, le), (">", 4, gt), (">=", 4, ge),
  ("+", 5, add), ("-", 5, sub), ("*", 6, mul), ("/", 6, div)]

/-- The operation of a binary operator. -/
def ofBinary? (operator : String) : Option Primitive :=
  (binaryOperators.lookup operator).map Prod.snd

/-- The strength of a binary operator. -/
def strength? (operator : String) : Option Nat :=
  (binaryOperators.lookup operator).map Prod.fst

/-- The operation that source text calls by a name in the system namespace. -/
def ofSystemName? (text : String) : Option Primitive :=
  [arrayLength, arrayGet, arrayPush, keys, print, apply].find? fun primitive =>
    primitive.name == text

end Primitive

/-- Where a store operation takes its main operand. -/
inductive Slot where
  /-- The value to store. -/
  | value
  /-- The handle to work on. -/
  | handle
  /-- The front of the other operands. -/
  | arguments
  /-- Nowhere: the operation has no main operand. -/
  | none
  deriving DecidableEq

/-- An operation on tables. -/
inductive StoreOperator where
  | collapse
  | resolve
  | snapshot
  | resolveOr
  /-- Storing that waits until it is forced. -/
  | delay
  /-- Forcing what waits. -/
  | force
  | addAlias
  | removeAlias
  | scopeOpen
  | scopeClose
  | promote
  | watch
  | unwatch
  | onChange
  | compose
  | decompose
  | project
  | delete
  | clear
  deriving DecidableEq

namespace StoreOperator

/-- All store operations. -/
def all : List StoreOperator := [
  collapse, resolve, snapshot, resolveOr, delay, force, addAlias, removeAlias, scopeOpen,
  scopeClose, promote, watch, unwatch, onChange, compose, decompose, project, delete, clear]

/-- The stable name of a store operation. -/
def name : StoreOperator → String
  | collapse => "collapse"
  | resolve => "resolve"
  | snapshot => "snapshot"
  | resolveOr => "resolve_or"
  | delay => "lazy"
  | force => "force"
  | addAlias => "alias"
  | removeAlias => "unalias"
  | scopeOpen => "scope_open"
  | scopeClose => "scope_close"
  | promote => "promote"
  | watch => "watch"
  | unwatch => "unwatch"
  | onChange => "on_change"
  | compose => "compose"
  | decompose => "decompose"
  | project => "project"
  | delete => "delete"
  | clear => "clear"

/-- The store operation with a name. -/
def ofName? (text : String) : Option StoreOperator :=
  all.find? fun operator => operator.name == text

/-- How source text spells the operations that it can call. Three have a word of their own, the
others a name in a privileged namespace; opening and closing scopes cannot be called. -/
def spellings : List (String × StoreOperator) := [
  ("collapse", collapse), ("resolve", resolve), ("snapshot", snapshot),
  ("ls.resolve_or", resolveOr), ("ls.lazy", delay), ("ls.force", force), ("ls.alias", addAlias),
  ("ls.unalias", removeAlias), ("ls.promote", promote), ("ls.watch", watch),
  ("ls.unwatch", unwatch), ("ls.on_change", onChange), ("ls.compose", compose),
  ("ls.decompose", decompose), ("ls.project", project), ("ls.delete", delete), ("ls.clear", clear)]

/-- The operation that a word of source text calls. -/
def ofWord? (word : String) : Option StoreOperator := spellings.lookup word

/-- Where an operation takes its main operand. -/
def slot : StoreOperator → Slot
  | collapse | delay => .value
  | resolve | resolveOr | force | addAlias | promote | watch | unwatch | onChange | decompose
  | project | delete => .handle
  | compose => .arguments
  | snapshot | removeAlias | clear | scopeOpen | scopeClose => .none

/-- The least number of operands in source text, the main one included. -/
def leastArity : StoreOperator → Nat
  | collapse | delay | compose => 1
  | resolveOr | addAlias | onChange | project => 2
  | snapshot | clear | scopeOpen | scopeClose => 0
  | resolve | force | removeAlias | promote | watch | unwatch | decompose | delete => 1

/-- The greatest number of operands in source text, if there is one. -/
def greatestArity? : StoreOperator → Option Nat
  | collapse | delay => some 2
  | resolveOr | addAlias | onChange | project => some 2
  | compose => none
  | clear | scopeOpen | scopeClose => some 0
  | snapshot | resolve | force | removeAlias | promote | watch | unwatch | decompose | delete =>
    some 1

/-- Whether a number of operands suits an operation. -/
def admits (operator : StoreOperator) (count : Nat) : Bool :=
  operator.leastArity ≤ count && operator.greatestArity?.all fun most => count ≤ most

/-- Whether a further operand, a literal text, is the tag of what is stored. -/
def takesTag : StoreOperator → Bool
  | collapse | delay => true
  | _ => false

end StoreOperator

end ContentSpace
