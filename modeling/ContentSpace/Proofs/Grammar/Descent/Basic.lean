import ContentSpace.Grammar.Parser

/-!
# Recursive descent

A descent reads tokens in place: a cursor moves over a list of tokens that ends with the end token,
and stays there once it has come to it. A counter of the depth goes up for whatever nests and for
each fold of a chain, and is set back at the end of what raised it. So both change step by step,
while the parsers of a level have a fixed room and leave fewer tokens.

Besides failing, a descent can go wrong in ways that have no place in the parsers: it can look at a
token outside of the list, repeat a loop more often than there are tokens left, or call procedures
inside one another without end. Here each of these halts it, so that it can be proved that none of
them happens.
-/

namespace ContentSpace.Grammar

namespace Descent

/-- Where a descent stands. -/
structure State where
  /-- The number of tokens before the cursor. -/
  position : Nat := 0
  /-- The depth that is counted against the limit. -/
  depth : Nat := 0
  /-- The greatest depth so far. -/
  highest : Nat := 0
  deriving DecidableEq

/-- Why a descent halts. -/
inductive Halt where
  /-- The tokens are refused. -/
  | failed (failure : Failure)
  /-- A token outside of the list is looked at. -/
  | outside
  /-- A loop has more rounds than there are tokens left. -/
  | spun
  /-- A chain of calls is longer than allowed. -/
  | exceeded

end Descent

/-- Steps of a descent. -/
abbrev Descent := EStateM Descent.Halt Descent.State

namespace Descent

variable {α β : Type}

/-- Fails for a fault. -/
def refuse (fault : Fault) : Descent α := throw (.failed { fault })

/-- Goes on with what was checked, or fails for its fault. -/
def check : Except Fault α → Descent α
  | .ok value => return value
  | .error fault => refuse fault

/-- Takes steps and sets the depth back, whether they fail or not. -/
def chained (steps : Descent α) : Descent α := fun state =>
  match steps state with
  | .ok value after => .ok value { after with depth := state.depth }
  | .error halt after => .error halt { after with depth := state.depth }

/-- Changes the failure of steps. -/
def mapFailure (change : Failure → Failure) (steps : Descent α) : Descent α := fun state =>
  match steps state with
  | .error (.failed failure) after => .error (.failed (change failure)) after
  | result => result

section

variable (tokens : List Token)

/-- The token a number of places after the cursor, or the last one. -/
def peekAt (ahead : Nat) : Descent Token := do
  match tokens[min ((← get).position + ahead) (tokens.length - 1)]? with
  | some token => return token
  | none => throw .outside

/-- The token at the cursor. -/
def peek : Descent Token := peekAt tokens 0

/-- Moves the cursor, unless it is at the last token. -/
def advance : Descent Unit :=
  modify fun state =>
    if state.position + 1 < tokens.length then { state with position := state.position + 1 }
    else state

/-- The number of rounds that a loop may have, one for each token from the cursor on. -/
def rounds : Descent Nat := return tokens.length - (← get).position

/-- Fails at the token at the cursor. -/
def fail (problem : SyntaxProblem) : Descent α := do
  let next ← peek tokens
  refuse (.syntaxError problem next.describe next.line)

/-- Moves over a token if it passes a test. -/
def eat (test : Token → Bool) : Descent Bool := do
  if test (← peek tokens) then
    advance tokens
    return true
  else return false

/-- Moves over a token, which must pass a test. -/
def expect (test : Token → Bool) (problem : SyntaxProblem) : Descent Token := do
  let next ← peek tokens
  if test next then
    advance tokens
    return next
  else fail tokens problem

/-- Moves over a certain symbol. -/
def symbol (word : String) : Descent Token := expect tokens (·.isSymbol word) (.expected word)

/-- Moves over a certain keyword. -/
def keyword (word : String) : Descent Token := expect tokens (·.isKeyword word) (.expected word)

/-- Moves over a certain operator. -/
def operator (word : String) : Descent Token := expect tokens (·.isOperator word) (.expected word)

/-- Moves over a token of a certain kind. -/
def ofKind (kind : TokenKind) (problem : SyntaxProblem) : Descent Token :=
  expect tokens (·.kind == kind) problem

/-- Moves over a name. -/
def name : Descent Token := ofKind tokens .identifier .expectedName

/-- Counts one more level of depth, within a limit. -/
def deepen (limit : Nat) : Descent Unit := do
  let state ← get
  if limit ≤ state.depth then fail tokens (.tooDeep limit)
  else
    let depth := state.depth + 1
    set { state with depth, highest := max state.highest depth }

/-- Takes steps one level deeper. -/
def nested (limit : Nat) (steps : Descent α) : Descent α :=
  chained do
    deepen tokens limit
    steps

/-- Goes on with items, each after a comma. -/
def furtherItems (item : Descent α) : (rounds : Nat) → List α → Descent (List α)
  | 0, _ => throw .spun
  | rounds + 1, items => do
    if ← eat tokens (·.isSymbol ",") then
      let next ← item
      furtherItems item rounds (items ++ [next])
    else return items

/-- Moves over items between two symbols, separated by commas. -/
def delimited (before after : String) (item : Descent α) : Descent (List α) := do
  let _ ← symbol tokens before
  if (← peek tokens).isSymbol after then
    let _ ← symbol tokens after
    return []
  else
    let first ← item
    let items ← furtherItems tokens item (← rounds tokens) [first]
    let _ ← symbol tokens after
    return items

/-- Moves over items up to a symbol. -/
def itemsUntil (after : String) (item : Descent α) : (rounds : Nat) → List α → Descent (List α)
  | 0, _ => throw .spun
  | rounds + 1, items => do
    if (← peek tokens).isSymbol after then return items
    else
      let next ← item
      itemsUntil after item rounds (items ++ [next])

end

end Descent

end ContentSpace.Grammar
