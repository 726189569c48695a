import ContentSpace.Tree.Basic

/-!
# Expansions of sugar

Each form stands for a combination of other forms. Its parts are given, and so are the temporary
names and labels that it needs.
-/

namespace ContentSpace.Expansion

/-- A loop that enters its label again as long as a condition holds. -/
def loop (label : String) (condition : Node) (body : List Node) : Node :=
  .labeled label (.branch condition (body ++ [.jump label]) [])

/-- The element of a collection at an index. -/
def element (collection index : String) : Node :=
  .apply .arrayGet [.var collection, .var index]

/-- A loop while an index is less than the length of a collection. -/
def indexLoop (label collection index : String) (body : List Node) : Node :=
  loop label (.apply .lt [.var index, .apply .arrayLength [.var collection]])
    (body ++ [.assignLocal index (.apply .add [.var index, .int 1])])

/-- A loop over the elements of a collection. -/
def forLoop (collection index label binding : String) (iterable : Node) (body : List Node) : Node :=
  .sequence [
    .assignLocal collection iterable,
    .assignLocal index (.int 0),
    indexLoop label collection index
      (.assignLocal binding (element collection index) :: body)]

/-- A name for the handle of a stored value. -/
def bind (temporary name table : String) (value : Node) : Node :=
  .sequence [
    .assignLocal temporary value,
    .assign name
      (.store { operator := .collapse, table, value := some (.var temporary), tag := some name })
      true]

/-- The content of a handle. -/
def content (table : String) (handle : Node) : Node :=
  .store { operator := .resolve, table, handle := some handle }

/-- A snapshot of a table with its values. -/
def snapshot (table : String) : Node :=
  .store { operator := .snapshot, table, arguments := [.literal (.bool true)] }

/-- What a batch does with an element. -/
def batchStep (mode : BatchMode) (name table : String) (element : Node) : Node :=
  match mode with
  | .collapse => .store {
      operator := mode.operator, table, value := some element, tag := some name }
  | .resolve => .store { operator := mode.operator, table, handle := some element }

/-- A name for the results of an operation on each element. -/
def batch (collection results index label name table : String) (elements : Node)
    (mode : BatchMode) : Node :=
  .sequence [
    .assignLocal collection elements,
    .assignLocal results (.apply .makeArray []),
    .assignLocal index (.int 0),
    indexLoop label collection index [
      .assignLocal results (.apply .arrayPush [
        .var results, batchStep mode name table (element collection index)])],
    .assign name (.var results) true]

/-- A body in which a new table inside another one is open. -/
def scope (name parent : String) (body : List Node) : Node :=
  .sequence (.store { operator := .scopeOpen, table := parent, tag := some name } ::
    body ++ [.store { operator := .scopeClose, table := name }])

/-- A value passed to a stage that is neither a name nor a call nor an operation that accepts it. -/
def applied (stage : Node) : (piped : Option Node) → Node
  | none => stage
  | some value => .apply .apply [stage, value]

/-- A value passed to a store operation, as its main operand if it accepts one. -/
def supplied (call : StoreCall Node) : (piped : Option Node) → Node
  | none => .store call
  | some value =>
    match if call.acceptsPiped then call.supply? value else none with
    | some call => .store call
    | none => applied (.store call) (some value)

end ContentSpace.Expansion
