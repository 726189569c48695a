import ContentSpace.Grammar.Program
import ContentSpace.Proofs.Grammar.Descent.Expression

/-!
# Recursive descent through statements and programs

A statement is one level deeper than what it stands in, and so is each statement of its bodies. The
blocks of a program start again at no depth. Calls of calls are counted, up to a length that is
given for the whole descent.
-/

namespace ContentSpace.Grammar.Descent

section

variable (tokens : List Token) (calls : Calls) (env : Environment)

/-- Statements between braces. -/
def body : Descent (List Node) := do
  let _ ← symbol tokens "\x7b"
  let statements ← itemsUntil tokens "\x7d" (calls.statement env) (← rounds tokens) []
  let _ ← symbol tokens "\x7d"
  return statements

/-- An expression up to a semicolon. -/
def terminated : Descent Node := do
  let node ← calls.expression env
  let _ ← symbol tokens ";"
  return node

/-- What is assigned: an equals sign and an expression up to a semicolon. -/
def assigned : Descent Node := do
  let _ ← operator tokens "="
  terminated tokens calls env

/-- A condition between parentheses. -/
def condition : Descent Node := do
  let _ ← symbol tokens "("
  let node ← calls.expression env
  let _ ← symbol tokens ")"
  return node

/-- A binding, new or up to the end of its block. -/
def binding (word : String) (bind : String → Node → Node) : Descent Node := do
  let _ ← keyword tokens word
  let name ← name tokens
  let value ← assigned tokens calls env
  return bind name.text value

/-- What follows `else`: another choice, or a body. -/
def alternative : Descent (List Node) := do
  if ← eat tokens (·.isKeyword "else") then
    if (← peek tokens).isKeyword "if" then
      let node ← calls.statement env
      return [node]
    else body tokens calls env
  else return []

/-- A choice between statements. -/
def branching : Descent Node := do
  let _ ← keyword tokens "if"
  let test ← condition tokens calls env
  let yes ← body tokens calls env
  let no ← alternative tokens calls env
  return .branch test yes no

/-- A loop while a condition holds. -/
def whileLoop : Descent Node := do
  let _ ← keyword tokens "while"
  let test ← condition tokens calls env
  let statements ← body tokens calls env
  return .sugar (.whileLoop test statements)

/-- A loop over the elements of a collection. -/
def forLoop : Descent Node := do
  let _ ← keyword tokens "for"
  let _ ← symbol tokens "("
  let name ← name tokens
  let _ ← keyword tokens "in"
  let iterable ← calls.expression env
  let _ ← symbol tokens ")"
  let statements ← body tokens calls env
  return .sugar (.forLoop name.text iterable statements)

/-- The end of a block, perhaps with a result. -/
def ending : Descent Node := do
  let _ ← keyword tokens "return"
  if ← eat tokens (·.isSymbol ";") then return .finish none
  else
    let result ← terminated tokens calls env
    return .finish (some result)

/-- A condition that must hold. -/
def assertion : Descent Node := do
  let _ ← keyword tokens "assert"
  let node ← terminated tokens calls env
  return .apply .assert [node]

/-- A body in which a table is active. -/
def usingTable : Descent Node := do
  let _ ← keyword tokens "using"
  let table ← name tokens
  let table ← check (env.scope.require table.text table.line)
  let statements ← body tokens calls (env.within table)
  return .sugar (.within table statements)

/-- A name bound again. -/
def reassignment : Descent Node := do
  let name ← name tokens
  if name.text.contains '.' then
    refuse (.syntaxError .assignmentToField name.describe name.line)
  else
    let value ← assigned tokens calls env
    return .assign name.text value false

/-- A name and what is assigned to it, in a table. -/
def latentAssignment (what : String) (line : Nat) (make : String → String → Node → Sugar Node) :
    Descent Node := do
  let table ← tableName tokens
  let table ← check (ascribed env table what line)
  let name ← name tokens
  let value ← assigned tokens calls env
  return .sugar (make name.text table value)

/-- A snapshot of a table. -/
def latentSnapshot (line : Nat) : Descent Node := do
  let table ← tableName tokens
  let table ← check (ascribed env table "latent snapshot" line)
  let name ← name tokens
  let _ ← symbol tokens ";"
  return .sugar (.bindSnapshot name.text table)

/-- A body in which a name stands for the content of a handle. -/
def latentMatch (line : Nat) : Descent Node := do
  let table ← tableName tokens
  let table ← check (ascribed env table "latent match" line)
  let name ← name tokens
  let _ ← operator tokens "="
  let handle ← calls.expression env
  let statements ← body tokens calls env
  return .sugar (.bindInside name.text table handle statements)

/-- A condition that must hold; a table may be named. -/
def latentGuard : Descent Node := do
  let table ← tableName tokens
  match table with
  | some table =>
    let _ ← check (env.scope.require table.text table.line)
    let node ← terminated tokens calls env
    return .sugar (.guard node)
  | none =>
    let node ← terminated tokens calls env
    return .sugar (.guard node)

/-- A body with a table of its own inside another one. -/
def latentScope (line : Nat) : Descent Node := do
  let table ← tableName tokens
  let parent ← check (ascribed env table "latent scope" line)
  let name ← name tokens
  let scope ← check (env.scope.openScope name.text name.line)
  let statements ← body tokens calls { env with scope }
  return .sugar (.scope name.text parent statements)

/-- A statement on a table. -/
def latent : Descent Node := do
  let latent ← keyword tokens "latent"
  let next ← peek tokens
  if next.isKeyword "table" then
    advance tokens
    let name ← name tokens
    refuse (.lateTable name.text name.line)
  else if next.isKeyword "value" then
    advance tokens
    latentAssignment tokens calls env "latent value" latent.line .bindContent
  else if next.isKeyword "snapshot" then
    advance tokens
    latentSnapshot tokens env latent.line
  else if next.isKeyword "match" then
    advance tokens
    latentMatch tokens calls env latent.line
  else if next.isKeyword "guard" then
    advance tokens
    latentGuard tokens calls env
  else if next.isKeyword "batch" then
    advance tokens
    latentAssignment tokens calls env "latent batch" latent.line fun name table value =>
      .batch name table value .collapse
  else if next.isKeyword "resolve" then
    advance tokens
    let _ ← keyword tokens "batch"
    latentAssignment tokens calls env "latent batch" latent.line fun name table value =>
      .batch name table value .resolve
  else if next.isKeyword "scope" then
    advance tokens
    latentScope tokens calls env latent.line
  else latentAssignment tokens calls env "latent" latent.line .bind

/-- Whether a name and an equals sign come next. -/
def atReassignment : Descent Bool := do
  let name ← peek tokens
  let equals ← peekAt tokens 1
  return name.kind = .identifier && equals.isOperator "="

/-- A statement, known by its first tokens. -/
def statementOf : Descent Node := do
  let next ← peek tokens
  let again ← atReassignment tokens
  if next.isKeyword "let" then
    binding tokens calls env "let" fun name value => .assign name value true
  else if next.isKeyword "local" then binding tokens calls env "local" .assignLocal
  else if next.isKeyword "if" then branching tokens calls env
  else if next.isKeyword "while" then whileLoop tokens calls env
  else if next.isKeyword "for" then forLoop tokens calls env
  else if next.isKeyword "return" then ending tokens calls env
  else if next.isKeyword "assert" then assertion tokens calls env
  else if next.isKeyword "using" then usingTable tokens calls env
  else if next.isKeyword "latent" then latent tokens calls env
  else if again then reassignment tokens calls env
  else terminated tokens calls env

/-- A statement inside others. -/
def statement : Descent Node := nested tokens env.limit (statementOf tokens calls env)

end

section

variable (tokens : List Token)

/-- The procedures whose chains of calls have at most a certain length. -/
def calls : (length : Nat) → Calls
  | 0 => ⟨fun _ => throw .exceeded, fun _ _ => throw .exceeded, fun _ => throw .exceeded,
      fun _ => throw .exceeded⟩
  | length + 1 => ⟨expression tokens (calls length), combination tokens (calls length),
      operand tokens (calls length), statement tokens (calls length)⟩

/-- Whether the declaration of a table comes next. -/
def atDeclaration : Descent Bool := do
  let latent ← peek tokens
  let table ← peekAt tokens 1
  return latent.isKeyword "latent" && table.isKeyword "table"

/-- The declaration of a table. -/
def declaration : Descent Token := do
  let _ ← keyword tokens "latent"
  let _ ← keyword tokens "table"
  let name ← name tokens
  let _ ← symbol tokens ";"
  return name

/-- A declaration that comes too late. -/
def lateDeclaration {α : Type} : Descent α := do
  let name ← declaration tokens
  refuse (.lateTable name.text name.line)

/-- Goes on with declarations, in the environment that has their tables. -/
def declarations : (rounds : Nat) → Environment → Descent Environment
  | 0, _ => throw .spun
  | rounds + 1, env => do
    if ← atDeclaration tokens then
      let name ← declaration tokens
      let scope ← check (env.scope.declare name.text name.line)
      declarations rounds { env with scope }
    else return env

/-- A parameter, which must not be among those before it. -/
def parameter (block : String) (before : List String) : Descent String := do
  let name ← name tokens
  if before.contains name.text then refuse (.duplicateParameter block name.text name.line)
  else return name.text

/-- Goes on with parameters, each after a comma. -/
def furtherParameters (block : String) : (rounds : Nat) → List String → Descent (List String)
  | 0, _ => throw .spun
  | rounds + 1, before => do
    if ← eat tokens (·.isSymbol ",") then
      let next ← parameter tokens block before
      furtherParameters block rounds (before ++ [next])
    else return before

/-- The parameters of a block between parentheses. -/
def parameters (block : String) : Descent (List String) := do
  let _ ← symbol tokens "("
  if (← peek tokens).isSymbol ")" then
    let _ ← symbol tokens ")"
    return []
  else
    let first ← parameter tokens block []
    let all ← furtherParameters tokens block (← rounds tokens) [first]
    let _ ← symbol tokens ")"
    return all

variable (length : Nat) (env : Environment)

/-- The table that is active in a block, if the block names one. -/
def activeTable : Descent (Option String) := do
  if ← eat tokens (·.isKeyword "using") then
    let table ← name tokens
    let table ← check (env.scope.require table.text table.line)
    return some table
  else return none

/-- A block. -/
def block : Descent Block := do
  let _ ← keyword tokens "block"
  let name ← name tokens
  let parameters ← parameters tokens name.text
  let activeTable ← activeTable tokens env
  let body ← body tokens (calls tokens length) (activeTable.elim env env.within)
  return { name := name.text, parameters, activeTable, body }

/-- A block of a program. -/
def blockOf (program : String) : Descent Block := do
  if ← atDeclaration tokens then lateDeclaration tokens
  else
    mapFailure (fun failure => { failure with origin := some { source := some program } })
      (block tokens length env)

/-- The end of the tokens. -/
def atEnd : Descent Unit := do
  let _ ← ofKind tokens .finish .expectedEnd

/-- A program. -/
def program : Descent Program := do
  let env ← declarations tokens (← rounds tokens) env
  let _ ← keyword tokens "program"
  let name ← name tokens
  let _ ← symbol tokens "\x7b"
  let env ← declarations tokens (← rounds tokens) env
  let blocks ← itemsUntil tokens "\x7d" (blockOf tokens length env name.text) (← rounds tokens) []
  let _ ← symbol tokens "\x7d"
  if ← atDeclaration tokens then lateDeclaration tokens
  else
    atEnd tokens
    return { name := name.text, tables := env.scope.declared, blocks }

/-- An expression that is all there is. -/
def wholeExpression : Descent Node := do
  let node ← (calls tokens length).expression env
  atEnd tokens
  return node

end

end ContentSpace.Grammar.Descent
