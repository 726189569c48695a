import ContentSpace.Fault.Basic
import ContentSpace.Number.DoubleText
import ContentSpace.Source.Token
import ContentSpace.Tree.Basic

/-!
# What tokens stand for

Digits stand for a whole number, or for a double if they are too large for 64 bits; a minus sign in
front of digits keeps the least whole number whole. Strings have escapes, and names have parts.
-/

namespace ContentSpace.Grammar

/-- The text that a string stands for: a backslash makes quote, backslash, newline and tab, and
stays before any other character. -/
def unescaped : List Char → List Char
  | '\\' :: '"' :: rest => '"' :: unescaped rest
  | '\\' :: '\\' :: rest => '\\' :: unescaped rest
  | '\\' :: 'n' :: rest => '\n' :: unescaped rest
  | '\\' :: 't' :: rest => '\t' :: unescaped rest
  | '\\' :: c :: rest => '\\' :: c :: unescaped rest
  | c :: rest => c :: unescaped rest
  | [] => []

/-- The text that the text of a string token stands for. -/
def stringContent (text : String) : String := String.ofList (unescaped text.toList)

/-- The parts of a text between its dots. -/
def dotParts : List Char → List (List Char)
  | [] => [[]]
  | c :: rest =>
    if c = '.' then [] :: dotParts rest
    else match dotParts rest with
      | [] => [[c]]
      | part :: parts => (c :: part) :: parts

/-- The parts of a dotted name. -/
def nameParts (name : String) : List String := (dotParts name.toList).map String.ofList

/-- The double that the text of a token stands for. -/
def floatLiteral (token : Token) : Except Fault Literal :=
  match Double.ofText? token.text.toList with
  | some x => .ok (.float x)
  | none => .error (.syntaxError .malformedNumber token.text token.line)

/-- The number whose negative is the least whole number. -/
def leastMagnitude : Nat := 0x8000000000000000

/-- The number that digits stand for. -/
def wholeLiteral (token : Token) : Except Fault Literal :=
  let n := Numeral.value token.text.toList
  if n < leastMagnitude then .ok (.int (Int64.ofNat n)) else floatLiteral token

/-- Whether a token stands for the number whose negative is the least whole number. -/
def isLeastMagnitude (token : Token) : Bool :=
  token.kind == .integer && Numeral.value token.text.toList == leastMagnitude

/-- The negative of a node. Numbers are negated at once; the least whole number has no negative. -/
def negated : Node → Node
  | .literal (.int n) =>
    if n = Int64.minValue then .apply .neg [.int n] else .int (-n)
  | .literal (.float x) => .literal (.float x.negated)
  | operand => .apply .neg [operand]

/-- A field of a node. -/
def fieldOf (node : Node) (name : String) : Node := .apply .field [node, .string name]

/-- The name of a field at a position. -/
def positionalName (position : String) : String := "@" ++ position

/-- An object with named fields. -/
def objectOf (fields : List (String × Node)) : Node :=
  .apply .makeObject (fields.flatMap fun (name, value) => [.string name, value])

/-- A contract with its arguments, as an object whose only field is named by the contract. -/
def contractOf (contract : String) (arguments : List Node) : Node :=
  objectOf [(contract, objectOf (arguments.zipIdx.map fun (argument, i) =>
    (positionalName (countText i), argument)))]

/-- The arguments of a store operation without its tag, and the tag: a last argument beyond the
main one, or the default. -/
def splitTag (operator : StoreOperator) (supplied : Nat) (defaultTag : String)
    (arguments : List Node) : Except SyntaxProblem (List Node × Option String) :=
  if !operator.takesTag then .ok (arguments, none)
  else if operator.greatestArity? = some supplied then
    match arguments.getLast? with
    | some (.literal (.string tag)) => .ok (arguments.dropLast, some tag)
    | _ => .error .tagNotLiteral
  else .ok (arguments, some defaultTag)

/-- The store operation on arguments. A pipeline stage lacks its main operand. -/
def storeOf (operator : StoreOperator) (table defaultTag : String) (inStage : Bool)
    (arguments : List Node) : Except SyntaxProblem (StoreCall Node) :=
  let supplied := arguments.length + inStage.toNat
  if inStage && operator.slot = .none then .error (.notAStage operator.name)
  else if !operator.admits supplied then .error (.wrongArgumentCount operator.name)
  else
    match splitTag operator supplied defaultTag arguments with
    | .error problem => .error problem
    | .ok (arguments, tag) =>
      match inStage, operator.slot, arguments with
      | false, .value, main :: others =>
        .ok { operator, table, tag, value := some main, arguments := others }
      | false, .handle, main :: others =>
        .ok { operator, table, tag, handle := some main, arguments := others }
      | _, _, _ => .ok { operator, table, tag, arguments }

end ContentSpace.Grammar
