import ContentSpace.Grammar.Scope
import ContentSpace.Source.Token

/-!
# Parsers of tokens

A parser takes something from the front of tokens or returns the first failure; what it takes may
be nothing. A consumer takes at least one token, so repeating it comes to an end. The token for the
end of the source is not among the tokens: it stands in where they have run out.
-/

namespace ContentSpace.Grammar

/-- What stays the same while an expression or a statement is read. -/
structure Environment where
  /-- How deep statements and expressions may nest. -/
  limit : Nat
  /-- The tag of stored content for which the source gives none. -/
  defaultTag : String
  /-- The token for the end of the source. -/
  finish : Token
  /-- The tables in scope. -/
  scope : Scope

namespace Environment

/-- The next token. -/
def peek (env : Environment) (source : List Token) : Token := source.headD env.finish

/-- A problem with the next token. -/
def failure (env : Environment) (problem : SyntaxProblem) (source : List Token) : Failure where
  fault := .syntaxError problem (env.peek source).describe (env.peek source).line

end Environment

/-- What a parser took from tokens. -/
structure Parsed (α : Type) (source : List Token) where
  /-- What was taken. -/
  value : α
  /-- The tokens after it. -/
  rest : List Token
  /-- No token was added. -/
  bounded : rest.length ≤ source.length

/-- What a consumer took from tokens. -/
structure Consumed (α : Type) (source : List Token) where
  /-- What was taken. -/
  value : α
  /-- The tokens after it. -/
  rest : List Token
  /-- At least one token was taken. -/
  shorter : rest.length < source.length

/-- Takes something that may consist of no token. -/
def Parser (α : Type) : Type := (source : List Token) → Except Failure (Parsed α source)

/-- Takes something that consists of at least one token. -/
def Consumer (α : Type) : Type := (source : List Token) → Except Failure (Consumed α source)

variable {α β : Type}

namespace Parser

/-- Takes nothing. -/
def pure (value : α) : Parser α := fun source => .ok ⟨value, source, Nat.le_refl _⟩

/-- One parser after another. -/
def bind (first : Parser α) (next : α → Parser β) : Parser β := fun source => do
  let left ← first source
  let right ← next left.value left.rest
  return ⟨right.value, right.rest, Nat.le_trans right.bounded left.bounded⟩

instance : Monad Parser where
  pure := pure
  bind := bind

/-- Takes nothing and fails. -/
def refuse (fault : Fault) : Parser α := fun _ => .error { fault }

/-- Takes nothing and checks something. -/
def check (result : Except Fault α) : Parser α := fun source =>
  match result with
  | .ok value => pure value source
  | .error fault => refuse fault source

instance : MonadLift (Except Fault) Parser := ⟨check⟩

/-- Takes nothing and tells the next token. -/
def next (env : Environment) : Parser Token := fun source => pure (env.peek source) source

/-- Takes nothing and tells the tokens ahead. -/
def ahead : Parser (List Token) := fun source => pure source source

/-- Fails at the next token. -/
def fail (env : Environment) (problem : SyntaxProblem) : Parser α := fun source =>
  .error (env.failure problem source)

/-- A consumer after a parser. -/
def before (first : Parser α) (next : α → Consumer β) : Consumer β := fun source => do
  let left ← first source
  let right ← next left.value left.rest
  return ⟨right.value, right.rest, Nat.lt_of_lt_of_le right.shorter left.bounded⟩

end Parser

namespace Consumer

/-- A consumer is a parser. -/
def toParser (consumer : Consumer α) : Parser α := fun source => do
  let taken ← consumer source
  return ⟨taken.value, taken.rest, Nat.le_of_lt taken.shorter⟩

instance : MonadLift Consumer Parser := ⟨toParser⟩

/-- A parser after a consumer. -/
def andThen (first : Consumer α) (next : α → Parser β) : Consumer β := fun source => do
  let left ← first source
  let right ← next left.value left.rest
  return ⟨right.value, right.rest, Nat.lt_of_le_of_lt right.bounded left.shorter⟩

/-- The consumer that the next token selects. -/
def ahead (env : Environment) (select : Token → Consumer α) : Consumer α := fun source =>
  select (env.peek source) source

/-- Fails at the next token. -/
def fail (env : Environment) (problem : SyntaxProblem) : Consumer α := fun source =>
  .error (env.failure problem source)

/-- What a consumer took together with the number of tokens it consists of. -/
def counted (consumer : Consumer α) : Consumer (α × Nat) := fun source => do
  let taken ← consumer source
  return ⟨(taken.value, source.length - taken.rest.length), taken.rest, taken.shorter⟩

/-- The failures of a consumer, changed by a function. -/
def mapFailure (consumer : Consumer α) (change : Failure → Failure) : Consumer α := fun source =>
  (consumer source).mapError change

end Consumer

/-- The next token, which must pass a test. -/
def token (env : Environment) (test : Token → Bool) (problem : SyntaxProblem) : Consumer Token
  | [] => .error (env.failure problem [])
  | next :: rest =>
    if test next then .ok ⟨next, rest, Nat.lt_succ_self _⟩
    else .error (env.failure problem (next :: rest))

/-- A certain symbol. -/
def symbol (env : Environment) (word : String) : Consumer Token :=
  token env (·.isSymbol word) (.expected word)

/-- A certain keyword. -/
def keyword (env : Environment) (word : String) : Consumer Token :=
  token env (·.isKeyword word) (.expected word)

/-- A certain operator. -/
def operator (env : Environment) (word : String) : Consumer Token :=
  token env (·.isOperator word) (.expected word)

/-- A token of a certain kind. -/
def ofKind (env : Environment) (kind : TokenKind) (problem : SyntaxProblem) : Consumer Token :=
  token env (·.kind == kind) problem

/-- A name. -/
def name (env : Environment) : Consumer Token := ofKind env .identifier .expectedName

/-- The end of the source. -/
def atEnd (env : Environment) : Parser Unit := fun source =>
  if source.isEmpty then Parser.pure () source else Parser.fail env .expectedEnd source

/-- Further items, each after a comma. -/
def furtherItems (env : Environment) (item : Consumer α) : Parser (List α) := fun source => do
  if (env.peek source).isSymbol "," then
    let first ← (symbol env ",").andThen (fun _ => item) source
    have := first.shorter
    let others ← furtherItems env item first.rest
    have := others.bounded
    return ⟨first.value :: others.value, others.rest, by omega⟩
  else Parser.pure [] source
termination_by source => source.length

/-- Items between two symbols, separated by commas. -/
def delimited (env : Environment) (before after : String) (item : Consumer α) :
    Consumer (List α) :=
  (symbol env before).andThen fun _ => do
    if (← Parser.next env).isSymbol after then
      let _ ← symbol env after
      return []
    else
      let first ← item
      let others ← furtherItems env item
      let _ ← symbol env after
      return first :: others

/-- Items up to a symbol, which is not taken. -/
def itemsUntil (env : Environment) (after : String) (item : Consumer α) : Parser (List α) :=
  fun source => do
    if (env.peek source).isSymbol after then Parser.pure [] source
    else
      let first ← item source
      have := first.shorter
      let others ← itemsUntil env after item first.rest
      have := others.bounded
      return ⟨first.value :: others.value, others.rest, by omega⟩
termination_by source => source.length

end ContentSpace.Grammar
