import ContentSpace.Grammar.Expression

/-!
# Statements

A statement is known by its first tokens; what no other statement starts with is an expression.
Statements take up room like expressions. A body between braces may have tables or scopes of its
own: they end with the body, because only the body is read in their environment.
-/

namespace ContentSpace.Grammar

namespace Environment

/-- The environment in which a table is active. -/
def within (env : Environment) (table : String) : Environment :=
  { env with scope := env.scope.activate table }

end Environment

/-- Statements between braces. -/
def body (env : Environment) (statement : Environment → Consumer Node) : Consumer (List Node) :=
  (symbol env "\x7b").andThen fun _ => do
    let statements ← itemsUntil env "\x7d" (statement env)
    let _ ← symbol env "\x7d"
    return statements

/-- An expression up to a semicolon. -/
def terminated (env : Environment) (expression : Consumer Node) : Consumer Node :=
  expression.andThen fun node => do
    let _ ← symbol env ";"
    return node

section

variable (env : Environment) (expression : Consumer Node)
  (statement : Environment → Consumer Node)

/-- What is assigned: an equals sign and an expression up to a semicolon. -/
def assigned : Consumer Node := (operator env "=").andThen fun _ => terminated env expression

/-- A condition between parentheses. -/
def condition : Consumer Node :=
  (symbol env "(").andThen fun _ => do
    let node ← expression
    let _ ← symbol env ")"
    return node

/-- A binding, new or up to the end of its block. -/
def binding (word : String) (bind : String → Node → Node) : Consumer Node :=
  (keyword env word).andThen fun _ => do
    let name ← name env
    let value ← assigned env expression
    return bind name.text value

/-- What follows `else`: another choice, or a body. -/
def alternative : Parser (List Node) := do
  if (← Parser.next env).isKeyword "else" then
    let _ ← keyword env "else"
    if (← Parser.next env).isKeyword "if" then
      let node ← statement env
      return [node]
    else body env statement
  else return []

/-- A choice between statements. -/
def branching : Consumer Node :=
  (keyword env "if").andThen fun _ => do
    let test ← condition env expression
    let yes ← body env statement
    let no ← alternative env statement
    return .branch test yes no

/-- A loop while a condition holds. -/
def whileLoop : Consumer Node :=
  (keyword env "while").andThen fun _ => do
    let test ← condition env expression
    let statements ← body env statement
    return .sugar (.whileLoop test statements)

/-- A loop over the elements of a collection. -/
def forLoop : Consumer Node :=
  (keyword env "for").andThen fun _ => do
    let _ ← symbol env "("
    let name ← name env
    let _ ← keyword env "in"
    let iterable ← expression
    let _ ← symbol env ")"
    let statements ← body env statement
    return .sugar (.forLoop name.text iterable statements)

/-- The end of a block, perhaps with a result. -/
def ending : Consumer Node :=
  (keyword env "return").andThen fun _ => do
    if (← Parser.next env).isSymbol ";" then
      let _ ← symbol env ";"
      return .finish none
    else
      let result ← terminated env expression
      return .finish (some result)

/-- A condition that must hold. -/
def assertion : Consumer Node :=
  (keyword env "assert").andThen fun _ => do
    let node ← terminated env expression
    return .apply .assert [node]

/-- A body in which a table is active. -/
def usingTable : Consumer Node :=
  (keyword env "using").andThen fun _ => do
    let table ← name env
    let table ← env.scope.require table.text table.line
    let statements ← body (env.within table) statement
    return .sugar (.within table statements)

/-- A name bound again. -/
def reassignment : Consumer Node :=
  (name env).andThen fun name => do
    if name.text.contains '.' then
      Parser.refuse (.syntaxError .assignmentToField name.describe name.line)
    else
      let value ← assigned env expression
      return .assign name.text value false

/-- A name and what is assigned to it, in a table. -/
def latentAssignment (what : String) (line : Nat) (make : String → String → Node → Sugar Node) :
    Parser Node := do
  let table ← ascription env
  let table ← ascribed env table what line
  let name ← name env
  let value ← assigned env expression
  return .sugar (make name.text table value)

/-- A snapshot of a table. -/
def latentSnapshot (line : Nat) : Parser Node := do
  let table ← ascription env
  let table ← ascribed env table "latent snapshot" line
  let name ← name env
  let _ ← symbol env ";"
  return .sugar (.bindSnapshot name.text table)

/-- A body in which a name stands for the content of a handle. -/
def latentMatch (line : Nat) : Parser Node := do
  let table ← ascription env
  let table ← ascribed env table "latent match" line
  let name ← name env
  let _ ← operator env "="
  let handle ← expression
  let statements ← body env statement
  return .sugar (.bindInside name.text table handle statements)

/-- A condition that must hold; a table may be named. -/
def latentGuard : Parser Node := do
  let table ← ascription env
  match table with
  | some table =>
    let _ ← env.scope.require table.text table.line
    let node ← terminated env expression
    return .sugar (.guard node)
  | none =>
    let node ← terminated env expression
    return .sugar (.guard node)

/-- A body with a table of its own inside another one. -/
def latentScope (line : Nat) : Parser Node := do
  let table ← ascription env
  let parent ← ascribed env table "latent scope" line
  let name ← name env
  let scope ← env.scope.openScope name.text name.line
  let inner := { env with scope }
  let statements ← body inner statement
  return .sugar (.scope name.text parent statements)

/-- A statement on a table. -/
def latent : Consumer Node :=
  (keyword env "latent").andThen fun latent => do
    let next ← Parser.next env
    let assignment := latentAssignment env expression
    if next.isKeyword "table" then
      let _ ← keyword env "table"
      let name ← name env
      Parser.refuse (.lateTable name.text name.line)
    else if next.isKeyword "value" then
      let _ ← keyword env "value"
      assignment "latent value" latent.line .bindContent
    else if next.isKeyword "snapshot" then
      let _ ← keyword env "snapshot"
      latentSnapshot env latent.line
    else if next.isKeyword "match" then
      let _ ← keyword env "match"
      latentMatch env expression statement latent.line
    else if next.isKeyword "guard" then
      let _ ← keyword env "guard"
      latentGuard env expression
    else if next.isKeyword "batch" then
      let _ ← keyword env "batch"
      assignment "latent batch" latent.line fun name table value =>
        .batch name table value .collapse
    else if next.isKeyword "resolve" then
      let _ ← keyword env "resolve"
      let _ ← keyword env "batch"
      assignment "latent batch" latent.line fun name table value =>
        .batch name table value .resolve
    else if next.isKeyword "scope" then
      let _ ← keyword env "scope"
      latentScope env statement latent.line
    else assignment "latent" latent.line .bind

/-- Whether a name and an equals sign come next. -/
def atReassignment (source : List Token) : Bool :=
  match source with
  | name :: equals :: _ => name.kind = .identifier && equals.isOperator "="
  | _ => false

/-- A statement, given the parsers for what it holds. -/
def statementOf : Consumer Node := fun source =>
  let next := env.peek source
  let selected : Consumer Node :=
    if next.isKeyword "let" then
      binding env expression "let" fun name value => .assign name value true
    else if next.isKeyword "local" then binding env expression "local" .assignLocal
    else if next.isKeyword "if" then branching env expression statement
    else if next.isKeyword "while" then whileLoop env expression statement
    else if next.isKeyword "for" then forLoop env expression statement
    else if next.isKeyword "return" then ending env expression
    else if next.isKeyword "assert" then assertion env expression
    else if next.isKeyword "using" then usingTable env statement
    else if next.isKeyword "latent" then latent env expression statement
    else if atReassignment source then reassignment env expression
    else terminated env expression
  selected source

end

/-- A statement, for which a certain room is left. -/
def statement : (room : Nat) → (env : Environment) → Consumer Node
  | 0, env => Consumer.fail env (.tooDeep env.limit)
  | room + 1, env => statementOf env (level env room).expression (statement room)

end ContentSpace.Grammar
