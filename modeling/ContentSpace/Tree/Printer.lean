import ContentSpace.Number.DoubleText
import ContentSpace.Tree.Basic

/-!
# Printing syntax trees

Expressions are printed as calls, so that the order of evaluation shows. A program has one statement
on a line, indented by its depth.
-/

namespace ContentSpace

/-- A character inside a literal text: quote, backslash, newline and tab are escaped. -/
def escapedChar (c : Char) : List Char :=
  if c = '"' then ['\\', '"']
  else if c = '\\' then ['\\', '\\']
  else if c = '\n' then ['\\', 'n']
  else if c = '\t' then ['\\', 't']
  else [c]

/-- Text as a literal of the language. -/
def printString (text : String) : String :=
  String.ofList ('"' :: text.toList.flatMap escapedChar ++ ['"'])

/-- A literal. -/
def Literal.print : Literal → String
  | null => "null"
  | bool true => "true"
  | bool false => "false"
  | int n => String.ofList (Numeral.ofInt n.toInt)
  | float x => String.ofList x.text
  | string text => printString text
  | blob text => text

/-- Printed operands between parentheses. -/
def printOperands (operands : List String) : String := "(" ++ ", ".intercalate operands ++ ")"

/-- Printed statements between braces. -/
def printBraced (statements : List String) : String :=
  if statements.isEmpty then "\x7b\x7d"
  else "\x7b " ++ "; ".intercalate statements ++ " \x7d"

namespace Node

mutual

/-- A node on one line. -/
def print : Node → String
  | .literal content => content.print
  | .var name => name
  | .assign name value isNew => (if isNew then "let " else "") ++ name ++ " = " ++ print value
  | .assignLocal name value => "local " ++ name ++ " = " ++ print value
  | .branch condition yes no =>
    "if (" ++ print condition ++ ") " ++ printBraced (printAll yes) ++
      (if no.isEmpty then "" else " else " ++ printBraced (printAll no))
  | .sequence body => printBraced (printAll body)
  | .apply primitive operands => primitive.name ++ printOperands (printAll operands)
  | .call target operands => print target ++ printOperands (printAll operands)
  | .finish none => "return"
  | .finish (some result) => "return " ++ print result
  | .store operation => printStore operation
  | .labeled label body => label ++ ": " ++ print body
  | .jump label => "jump " ++ label
  | .sugar form => printSugar form

/-- Each node on one line. -/
def printAll : List Node → List String
  | [] => []
  | node :: rest => print node :: printAll rest

/-- An optional node as a list of what is printed. -/
def printOption : Option Node → List String
  | none => []
  | some node => [print node]

/-- A store operation with its table, its operands and its tag. -/
def printStore : StoreCall Node → String
  | ⟨operator, table, handle, value, tag, operands⟩ =>
    operator.name ++ "<" ++ table ++ ">" ++
      printOperands (printOption handle ++ printOption value ++ printAll operands ++
        (tag.map printString).toList)

/-- A form as a call with its children. -/
def printSugar : Sugar Node → String
  | .pipeline value stage => "pipeline" ++ printOperands [print value, print stage]
  | .whileLoop condition body => "while" ++ printOperands (print condition :: printAll body)
  | .forLoop _ iterable body => "for" ++ printOperands (print iterable :: printAll body)
  | .bind _ _ value => "latent_bind" ++ printOperands [print value]
  | .bindContent _ _ handle => "latent_value" ++ printOperands [print handle]
  | .bindSnapshot _ _ => "latent_snapshot" ++ printOperands []
  | .bindInside _ _ handle body => "latent_match" ++ printOperands (print handle :: printAll body)
  | .guard condition => "latent_guard" ++ printOperands [print condition]
  | .batch _ _ elements _ => "latent_batch" ++ printOperands [print elements]
  | .scope _ _ body => "latent_scope" ++ printOperands (printAll body)
  | .within _ body => "using" ++ printOperands (printAll body)

end

end Node

/-- A block whose lines are indented by a number of spaces for each level. -/
def Block.print (width : Nat) (block : Block) : String :=
  let indent (level : Nat) := String.ofList (List.replicate (level * width) ' ')
  indent 1 ++ "block " ++ block.name ++ "(" ++ ", ".intercalate block.parameters ++ ")" ++
    (block.activeTable.elim "" fun table => " using " ++ table) ++ " \x7b\n" ++
    String.join (block.body.map fun statement => indent 2 ++ statement.print ++ ";\n") ++
    indent 1 ++ "\x7d\n"

/-- A program whose lines are indented by a number of spaces for each level. -/
def Program.print (width : Nat) (program : Program) : String :=
  let indent := String.ofList (List.replicate width ' ')
  "program " ++ program.name ++ " \x7b\n" ++
    String.join (program.tables.map fun table => indent ++ "latent table " ++ table ++ ";\n") ++
    String.join (program.blocks.map (Block.print width)) ++ "\x7d"

/-- Spaces for each level of indentation when no other number is given. -/
def defaultIndent : Nat := 2

end ContentSpace
