import ContentSpace.Grammar.Statement
import ContentSpace.Source.Piece

/-!
# Programs

A program has a name, tables and blocks. Tables are declared before the program or at its start; a
later declaration fails. A failure inside a block names the program as its source.
-/

namespace ContentSpace

namespace Grammar

/-- Whether the declaration of a table comes next. -/
def atDeclaration (source : List Token) : Bool :=
  match source with
  | latent :: table :: _ => latent.isKeyword "latent" && table.isKeyword "table"
  | _ => false

/-- The declaration of a table. -/
def declaration (env : Environment) : Consumer Token :=
  (keyword env "latent").andThen fun _ => do
    let _ ← keyword env "table"
    let name ← name env
    let _ ← symbol env ";"
    return name

/-- A declaration that comes too late. -/
def lateDeclaration {α : Type} (env : Environment) : Consumer α :=
  (declaration env).andThen fun name => .refuse (.lateTable name.text name.line)

/-- The declarations that come next, in the environment that has their tables. -/
def declarations (env : Environment) : Parser Environment := fun source => do
  if atDeclaration source then
    let first ← (declaration env).andThen (fun name =>
      .check (env.scope.declare name.text name.line)) source
    have := first.shorter
    let others ← declarations { env with scope := first.value } first.rest
    have := others.bounded
    return ⟨others.value, others.rest, by omega⟩
  else Parser.pure env source
termination_by source => source.length

/-- A parameter, which must not be among those before it. -/
def parameter (env : Environment) (block : String) (before : List String) : Consumer String :=
  (name env).andThen fun name =>
    if before.contains name.text then
      .refuse (.duplicateParameter block name.text name.line)
    else return name.text

/-- All parameters, given those before the next comma. -/
def furtherParameters (env : Environment) (block : String) (before : List String) :
    Parser (List String) := fun source => do
  if (env.peek source).isSymbol "," then
    let next ← (symbol env ",").andThen (fun _ => parameter env block before) source
    have := next.shorter
    let all ← furtherParameters env block (before ++ [next.value]) next.rest
    have := all.bounded
    return ⟨all.value, all.rest, by omega⟩
  else Parser.pure before source
termination_by source => source.length

/-- The parameters of a block between parentheses. -/
def parameters (env : Environment) (block : String) : Consumer (List String) :=
  (symbol env "(").andThen fun _ => do
    if (← Parser.next env).isSymbol ")" then
      let _ ← symbol env ")"
      return []
    else
      let first ← parameter env block []
      let all ← furtherParameters env block [first]
      let _ ← symbol env ")"
      return all

/-- The table that is active in a block, if the block names one. -/
def activeTable (env : Environment) : Parser (Option String) := do
  if (← Parser.next env).isKeyword "using" then
    let _ ← keyword env "using"
    let table ← name env
    let table ← env.scope.require table.text table.line
    return some table
  else return none

/-- A block. -/
def block (env : Environment) : Consumer Block :=
  (keyword env "block").andThen fun _ => do
    let name ← name env
    let parameters ← parameters env name.text
    let activeTable ← activeTable env
    let body ← body (activeTable.elim env env.within) (statement env.limit)
    return { name := name.text, parameters, activeTable, body }

/-- A block of a program. -/
def blockOf (env : Environment) (program : String) : Consumer Block := fun source =>
  if atDeclaration source then lateDeclaration env source
  else ((block env).mapFailure fun failure =>
    { failure with origin := some { source := some program } }) source

/-- A program. -/
def program (env : Environment) : Parser Program := do
  let env ← declarations env
  let _ ← keyword env "program"
  let name ← name env
  let _ ← symbol env "\x7b"
  let env ← declarations env
  let blocks ← itemsUntil env "\x7d" (blockOf env name.text)
  let _ ← symbol env "\x7d"
  let late ← atDeclaration <$> Parser.ahead
  if late then lateDeclaration env
  else
    atEnd env
    return { name := name.text, tables := env.scope.declared, blocks }

/-- The environment at the start of source text. -/
def start (settings : Settings) (scope : Scope) (source : String) : Environment where
  limit := settings.maxDepth
  defaultTag := settings.defaultTag
  finish := Source.endToken source
  scope := scope

/-- What a parser takes from source text. -/
def read {α : Type} (settings : Settings) (scope : Scope) (source : String)
    (parser : Environment → Parser α) : Except Failure α :=
  (parser (start settings scope source) (Source.tokens settings source)).map Parsed.value

end Grammar

/-- The expression that source text consists of. -/
def parseExpression (settings : Settings) (scope : Scope) (source : String) :
    Except Failure Node :=
  Grammar.read settings scope source fun env => do
    let node ← (Grammar.level env env.limit).expression
    Grammar.atEnd env
    return node

/-- The program that source text consists of. -/
def parseProgram (settings : Settings) (source : String) : Except Failure Program :=
  Grammar.read settings {} source Grammar.program

end ContentSpace
