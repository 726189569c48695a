import ContentSpace.Grammar.Literal
import ContentSpace.Grammar.Parser

/-!
# Expressions

From the loosest to the tightest, an expression is a pipeline of stages, a combination of operands
by binary operators, an operand behind signs, an atom followed by indices, fields and arguments, or
an atom.

What nests takes up room: a sign, a pair of brackets, the right side of an operator, and each
further operator, field or argument list of one chain. The room is given back at the end of the
chain. A level holds the parsers for a certain room; they find those with less room in the level
below.
-/

namespace ContentSpace.Grammar

/-- The parsers of expressions for a certain room. -/
structure Level where
  /-- An expression inside others, which takes up room itself. -/
  expression : Consumer Node
  /-- A pipeline. -/
  pipeline : Consumer Node
  /-- Operands combined by operators of at least a certain strength. -/
  combination : Nat → Consumer Node
  /-- An operand of operators. -/
  operand : Consumer Node
  /-- A store operation as the stage of a pipeline. -/
  stage : StoreOperator → Consumer Node
  /-- The stages after a value. -/
  furtherStages : Node → Parser Node
  /-- The operators of at least a certain strength after an operand, with their right sides. -/
  furtherOperands : Nat → Node → Parser Node
  /-- The indices, fields and arguments after an atom. -/
  furtherSelections : Node → Parser Node
  /-- The parts of a dotted name after a node, and what follows the name. -/
  furtherParts : Token → List String → Node → Parser Node

/-- The level below, if there is room for it. -/
abbrev Below := Option (Thunk Level)

/-- Takes up room. -/
def deepen (env : Environment) : Below → Parser Level
  | none => Parser.fail env (.tooDeep env.limit)
  | some level => Parser.pure level.get

/-- The number of a position after `@`, as the name of its field. -/
def position (env : Environment) : Consumer String :=
  (symbol env "@").andThen fun _ => do
    let number ← ofKind env .integer .expectedFieldPosition
    return positionalName number.text

/-- A table between angle brackets, if there is one. -/
def ascription (env : Environment) : Parser (Option Token) := do
  if (← Parser.next env).isOperator "<" then
    let _ ← operator env "<"
    let table ← name env
    let _ ← operator env ">"
    return some table
  else return none

/-- The table that an ascription names, or else the active one. -/
def ascribed (env : Environment) (named : Option Token) (operation : String) (line : Nat) :
    Except Fault String :=
  match named with
  | some table => env.scope.require table.text table.line
  | none => env.scope.resolve none operation line

/-- The store operation that a token calls. -/
def storeWord? (token : Token) : Option StoreOperator :=
  if token.kind = .keyword then StoreOperator.ofWord? token.text else none

section

variable (env : Environment) (below : Below)

/-- An expression inside others. -/
def expression : Consumer Node := (deepen env below).before Level.pipeline

/-- Arguments between parentheses. -/
def arguments (item : Consumer Node) : Consumer (List Node) := delimited env "(" ")" item

/-- A store operation. -/
def storeCall (inStage : Bool) (operator : StoreOperator) : Consumer Node :=
  (ofKind env .keyword .expectedExpression).andThen fun word => do
    let table ← ascription env
    let given ← if (← Parser.next env).isSymbol "(" then arguments env (expression env below)
      else Parser.pure []
    let table ← ascribed env table operator.name word.line
    let call ← (storeOf operator table env.defaultTag inStage given).mapError fun problem =>
      Fault.syntaxError problem word.text word.line
    return .store call

/-- An expression between two symbols. -/
def enclosed (before after : String) : Consumer Node :=
  (symbol env before).andThen fun _ => do
    let node ← expression env below
    let _ ← symbol env after
    return node

/-- The name of a field of an object. -/
def fieldName : Consumer String :=
  Consumer.ahead env fun next =>
    let taken := ofKind env next.kind .expectedObjectKey
    match next.kind with
    | .identifier | .keyword | .integer => taken.andThen fun key => return key.text
    | .string => taken.andThen fun key => return stringContent key.text
    | _ => Consumer.fail env .expectedObjectKey

/-- A field of an object. -/
def objectField : Consumer (String × Node) :=
  (fieldName env).andThen fun key => do
    let _ ← symbol env ":"
    let value ← expression env below
    return (key, value)

/-- A choice between two expressions. -/
def choice : Consumer Node :=
  (keyword env "if").andThen fun _ => do
    let condition ← enclosed env below "(" ")"
    let yes ← enclosed env below "\x7b" "\x7d"
    let _ ← keyword env "else"
    let no ← enclosed env below "\x7b" "\x7d"
    return .branch condition [yes] [no]

/-- A contract. -/
def contract : Consumer Node :=
  (keyword env "new").andThen fun _ => do
    let number ← ofKind env .integer .expectedContract
    let given ← arguments env (expression env below)
    return contractOf number.text given

/-- A call in the system namespace. -/
def systemCall (word : String) (function : List Char) : Consumer Node :=
  match Primitive.ofSystemName? (String.ofList function) with
  | some primitive =>
    (keyword env word).andThen fun _ => do
      let given ← arguments env (expression env below)
      return .apply primitive given
  | none => Consumer.fail env .unknownPrimitive

/-- An atom that starts with a keyword. -/
def keywordAtom (next : Token) : Consumer Node :=
  match next.text with
  | "true" => (keyword env "true").andThen fun _ => return .literal (.bool true)
  | "false" => (keyword env "false").andThen fun _ => return .literal (.bool false)
  | "null" => (keyword env "null").andThen fun _ => return .literal .null
  | "new" => contract env below
  | "if" => choice env below
  | word =>
    match storeWord? next, word.toList with
    | some operator, _ => storeCall env below false operator
    | none, 's' :: 'y' :: 's' :: '.' :: function => systemCall env below word function
    | none, _ => Consumer.fail env .expectedExpression

/-- An atom other than a name. -/
def atom : Consumer Node :=
  Consumer.ahead env fun next =>
    let taken := ofKind env next.kind .expectedExpression
    match next.kind, next.text with
    | .integer, _ => taken.andThen fun token => return .literal (← wholeLiteral token)
    | .float, _ => taken.andThen fun token => return .literal (← floatLiteral token)
    | .string, _ => taken.andThen fun token => return .string (stringContent token.text)
    | .blob, _ => taken.andThen fun token => return .literal (.blob token.text)
    | .symbol, "(" => enclosed env below "(" ")"
    | .symbol, "[" => (delimited env "[" "]" (expression env below)).andThen fun items =>
        return .apply .makeArray items
    | .symbol, "\x7b" => (delimited env "\x7b" "\x7d" (objectField env below)).andThen fun fields =>
        return objectOf fields
    | .keyword, _ => keywordAtom env below next
    | _, _ => Consumer.fail env .expectedExpression

/-- The indices, fields and arguments after an atom. -/
def furtherSelections (node : Node) : Parser Node := do
  let next ← Parser.next env
  if next.isSymbol "[" then
    let lower ← deepen env below
    let _ ← symbol env "["
    let index ← lower.expression
    let _ ← symbol env "]"
    lower.furtherSelections (.apply .index [node, index])
  else if next.isSymbol "(" then
    let lower ← deepen env below
    let given ← arguments env lower.expression
    lower.furtherSelections (.call node given)
  else if next.isSymbol "." then
    let lower ← deepen env below
    let _ ← symbol env "."
    let field ← Parser.next env
    if field.isSymbol "@" then
      let number ← position env
      lower.furtherSelections (fieldOf node number)
    else if field.kind = .identifier ∨ field.kind = .keyword then
      let path ← ofKind env field.kind .expectedFieldName
      lower.furtherParts path (nameParts path.text) node
    else Parser.fail env .expectedFieldName
  else return node

/-- The parts of a dotted name after a node, and what follows the name. A last part that is empty
goes on with a position. -/
def furtherParts (path : Token) (parts : List String) (node : Node) : Parser Node :=
  match parts with
  | [] => furtherSelections env below node
  | part :: parts => do
    let lower ← deepen env below
    if part ≠ "" then lower.furtherParts path parts (fieldOf node part)
    else if parts.isEmpty then
      let number ← position env
      lower.furtherSelections (fieldOf node number)
    else Parser.refuse (.syntaxError .emptyFieldName path.describe path.line)

/-- An atom with what follows it. The first part of a name is a variable. -/
def selection : Consumer Node :=
  Consumer.ahead env fun next =>
    if next.kind = .identifier then
      (ofKind env .identifier .expectedExpression).andThen fun path =>
        match nameParts path.text with
        | [] => furtherSelections env below (.var path.text)
        | head :: parts => furtherParts env below path parts (.var head)
    else (atom env below).andThen (furtherSelections env below)

/-- An operand of operators. A minus sign before digits alone belongs to the number. -/
def operand : Consumer Node :=
  Consumer.ahead env fun next =>
    if next.isOperator "!" then
      (operator env "!").andThen fun _ => do
        let lower ← deepen env below
        let node ← lower.operand
        return .apply .not [node]
    else if next.isOperator "-" then
      (operator env "-").andThen fun _ => do
        let lower ← deepen env below
        let first ← Parser.next env
        let (node, count) ← lower.operand.counted
        return if isLeastMagnitude first && count == 1 then .int Int64.minValue else negated node
    else selection env below

/-- A binary operator of at least a certain strength. -/
def binary? (least : Nat) (token : Token) : Option (Nat × Primitive) :=
  if token.kind = .operator then
    (Primitive.binaryOperators.lookup token.text).filter fun found => least ≤ found.1
  else none

/-- The operators of at least a certain strength after an operand, with their right sides. -/
def furtherOperands (least : Nat) (left : Node) : Parser Node := do
  let next ← Parser.next env
  match binary? least next with
  | none => return left
  | some (strength, primitive) =>
    let _ ← operator env next.text
    let lower ← deepen env below
    let right ← lower.combination (strength + 1)
    lower.furtherOperands least (.apply primitive [left, right])

/-- Operands combined by operators of at least a certain strength. -/
def combination (least : Nat) : Consumer Node :=
  (operand env below).andThen (furtherOperands env below least)

/-- The stages after a value. -/
def furtherStages (value : Node) : Parser Node := do
  if (← Parser.next env).isOperator "|>" then
    let _ ← operator env "|>"
    let lower ← deepen env below
    let next ← Parser.next env
    let stage ← match storeWord? next with
      | some operator => lower.stage operator
      | none => lower.combination 1
    lower.furtherStages (.sugar (.pipeline value stage))
  else return value

/-- A pipeline. -/
def pipeline : Consumer Node := (combination env below 1).andThen (furtherStages env below)

/-- The parsers above a level. -/
def levelAbove : Level where
  expression := expression env below
  pipeline := pipeline env below
  combination := combination env below
  operand := operand env below
  stage := storeCall env below true
  furtherStages := furtherStages env below
  furtherOperands := furtherOperands env below
  furtherSelections := furtherSelections env below
  furtherParts := furtherParts env below

end

/-- The parsers for a certain room. -/
def level (env : Environment) : (room : Nat) → Level
  | 0 => levelAbove env none
  | room + 1 => levelAbove env (some ⟨fun _ => level env room⟩)

end ContentSpace.Grammar
