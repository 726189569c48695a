import ContentSpace.Grammar.Expression
import ContentSpace.Proofs.Grammar.Descent.Basic

/-!
# Recursive descent through expressions

The procedures for expressions call each other without an order between them, so what they call is
given to them. The folds of a chain are loops: each round counts one more level of depth, and the
end of the chain sets the depth back.
-/

namespace ContentSpace.Grammar.Descent

/-- The procedures that call each other; every circle of calls goes through one of them. -/
structure Calls where
  /-- An expression inside others. -/
  expression : Environment → Descent Node
  /-- Operands combined by operators of at least a certain strength. -/
  combination : Environment → Nat → Descent Node
  /-- An operand of operators. -/
  operand : Environment → Descent Node
  /-- A statement. -/
  statement : Environment → Descent Node

section

variable (tokens : List Token)

/-- The number of a position after `@`, as the name of its field. -/
def position : Descent String := do
  let _ ← symbol tokens "@"
  let number ← ofKind tokens .integer .expectedFieldPosition
  return positionalName number.text

/-- A table between angle brackets, if there is one. -/
def tableName : Descent (Option Token) := do
  if ← eat tokens (·.isOperator "<") then
    let table ← name tokens
    let _ ← operator tokens ">"
    return some table
  else return none

/-- The name of a field of an object. -/
def fieldName : Descent String := do
  let next ← peek tokens
  match next.kind with
  | .identifier | .keyword | .integer =>
    advance tokens
    return next.text
  | .string =>
    advance tokens
    return stringContent next.text
  | _ => fail tokens .expectedObjectKey

/-- Applies the parts of a dotted name to a node, each at the price of one level of depth. A last
part that is empty goes on with a position. -/
def parts (limit : Nat) (path : Token) : List String → Node → Descent Node
  | [], node => return node
  | part :: others, node => do
    deepen tokens limit
    if part ≠ "" then parts limit path others (fieldOf node part)
    else if others.isEmpty then
      let number ← position tokens
      return fieldOf node number
    else refuse (.syntaxError .emptyFieldName path.describe path.line)

variable (calls : Calls) (env : Environment)

/-- Arguments between parentheses. -/
def arguments : Descent (List Node) := delimited tokens "(" ")" (calls.expression env)

/-- A store operation. -/
def storeCall (inStage : Bool) (operator : StoreOperator) : Descent Node := do
  let word ← ofKind tokens .keyword .expectedExpression
  let table ← tableName tokens
  let given ← if (← peek tokens).isSymbol "(" then arguments tokens calls env else pure []
  let table ← check (ascribed env table operator.name word.line)
  let call ← check ((storeOf operator table env.defaultTag inStage given).mapError fun problem =>
    Fault.syntaxError problem word.text word.line)
  return .store call

/-- An expression between two symbols. -/
def enclosed (before after : String) : Descent Node := do
  let _ ← symbol tokens before
  let node ← calls.expression env
  let _ ← symbol tokens after
  return node

/-- A field of an object. -/
def objectField : Descent (String × Node) := do
  let key ← fieldName tokens
  let _ ← symbol tokens ":"
  let value ← calls.expression env
  return (key, value)

/-- A choice between two expressions. -/
def choice : Descent Node := do
  let _ ← keyword tokens "if"
  let condition ← enclosed tokens calls env "(" ")"
  let yes ← enclosed tokens calls env "\x7b" "\x7d"
  let _ ← keyword tokens "else"
  let no ← enclosed tokens calls env "\x7b" "\x7d"
  return .branch condition [yes] [no]

/-- A contract. -/
def contract : Descent Node := do
  let _ ← keyword tokens "new"
  let number ← ofKind tokens .integer .expectedContract
  let given ← arguments tokens calls env
  return contractOf number.text given

/-- A call in the system namespace. -/
def systemCall (word : String) (function : List Char) : Descent Node :=
  match Primitive.ofSystemName? (String.ofList function) with
  | some primitive => do
    let _ ← keyword tokens word
    let given ← arguments tokens calls env
    return .apply primitive given
  | none => fail tokens .unknownPrimitive

/-- An atom that starts with a keyword. -/
def keywordAtom (next : Token) : Descent Node :=
  match next.text with
  | "true" => do
    let _ ← keyword tokens "true"
    return .literal (.bool true)
  | "false" => do
    let _ ← keyword tokens "false"
    return .literal (.bool false)
  | "null" => do
    let _ ← keyword tokens "null"
    return .literal .null
  | "new" => contract tokens calls env
  | "if" => choice tokens calls env
  | word =>
    match storeWord? next with
    | some operator => storeCall tokens calls env false operator
    | none =>
      match word.toList with
      | 's' :: 'y' :: 's' :: '.' :: function => systemCall tokens calls env word function
      | _ => fail tokens .expectedExpression

/-- An atom between symbols. -/
def symbolAtom (next : Token) : Descent Node :=
  match next.text with
  | "(" => enclosed tokens calls env "(" ")"
  | "[" => do
    let items ← delimited tokens "[" "]" (calls.expression env)
    return .apply .makeArray items
  | "\x7b" => do
    let fields ← delimited tokens "\x7b" "\x7d" (objectField tokens calls env)
    return objectOf fields
  | _ => fail tokens .expectedExpression

/-- An atom. The first part of a name is a variable. -/
def atom : Descent Node := do
  let next ← peek tokens
  match next.kind with
  | .integer =>
    advance tokens
    return .literal (← check (wholeLiteral next))
  | .float =>
    advance tokens
    return .literal (← check (floatLiteral next))
  | .string =>
    advance tokens
    return .string (stringContent next.text)
  | .blob =>
    advance tokens
    return .literal (.blob next.text)
  | .identifier =>
    advance tokens
    match nameParts next.text with
    | [] => return .var next.text
    | head :: others => parts tokens env.limit next others (.var head)
  | .symbol => symbolAtom tokens calls env next
  | .keyword => keywordAtom tokens calls env next
  | .operator | .finish => fail tokens .expectedExpression

/-- Goes on with indices, fields and arguments, each at the price of one level of depth. -/
def selections : (rounds : Nat) → Node → Descent Node
  | 0, _ => throw .spun
  | rounds + 1, node => do
    let next ← peek tokens
    if next.isSymbol "[" then
      deepen tokens env.limit
      advance tokens
      let index ← calls.expression env
      let _ ← symbol tokens "]"
      selections rounds (.apply .index [node, index])
    else if next.isSymbol "(" then
      deepen tokens env.limit
      let given ← arguments tokens calls env
      selections rounds (.call node given)
    else if next.isSymbol "." then
      deepen tokens env.limit
      advance tokens
      let field ← peek tokens
      if field.isSymbol "@" then
        let number ← position tokens
        selections rounds (fieldOf node number)
      else if field.kind = .identifier ∨ field.kind = .keyword then
        advance tokens
        let node ← parts tokens env.limit field (nameParts field.text) node
        selections rounds node
      else fail tokens .expectedFieldName
    else return node

/-- An atom with what follows it. -/
def selection : Descent Node :=
  chained do
    let node ← atom tokens calls env
    selections tokens calls env (← rounds tokens) node

/-- An operand of operators. A minus sign before digits alone belongs to the number. -/
def operand : Descent Node := do
  if ← eat tokens (·.isOperator "!") then
    let node ← nested tokens env.limit (calls.operand env)
    return .apply .not [node]
  else if ← eat tokens (·.isOperator "-") then
    let start := (← get).position
    let first ← peek tokens
    let node ← nested tokens env.limit (calls.operand env)
    let count := (← get).position - start
    return if isLeastMagnitude first && count == 1 then .int Int64.minValue else negated node
  else selection tokens calls env

/-- Goes on with operators of at least a certain strength and their right sides, each at the price
of one level of depth. -/
def operators (least : Nat) : (rounds : Nat) → Node → Descent Node
  | 0, _ => throw .spun
  | rounds + 1, left => do
    match binary? least (← peek tokens) with
    | none => return left
    | some (strength, primitive) =>
      advance tokens
      deepen tokens env.limit
      let right ← calls.combination env (strength + 1)
      operators least rounds (.apply primitive [left, right])

/-- Operands combined by operators of at least a certain strength. -/
def combination (least : Nat) : Descent Node :=
  chained do
    let left ← calls.operand env
    operators tokens calls env least (← rounds tokens) left

/-- Goes on with the stages of a pipeline, each at the price of one level of depth. -/
def stages : (rounds : Nat) → Node → Descent Node
  | 0, _ => throw .spun
  | rounds + 1, value => do
    if ← eat tokens (·.isOperator "|>") then
      deepen tokens env.limit
      let stage ← match storeWord? (← peek tokens) with
        | some operator => storeCall tokens calls env true operator
        | none => calls.combination env 1
      stages rounds (.sugar (.pipeline value stage))
    else return value

/-- A pipeline. -/
def pipeline : Descent Node :=
  chained do
    let value ← calls.combination env 1
    stages tokens calls env (← rounds tokens) value

/-- An expression inside others. -/
def expression : Descent Node := nested tokens env.limit (pipeline tokens calls env)

end

end ContentSpace.Grammar.Descent
