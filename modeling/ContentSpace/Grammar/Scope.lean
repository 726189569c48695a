import ContentSpace.Fault.Basic

/-!
# Tables in scope

While source text is read, a scope knows which tables are declared, which scopes are open around the
current place, and which table is active. Declarations end where the first block starts.
-/

namespace ContentSpace

/-- What is known about tables at a place in source text. -/
structure Scope where
  /-- The declared tables in order. -/
  declared : List String := []
  /-- Whether declarations have ended. -/
  isSealed : Bool := false
  /-- The active tables, the innermost first. -/
  active : List String := []
  /-- The scopes that are open, the innermost first. -/
  opened : List String := []
  deriving DecidableEq

namespace Scope

/-- Declares a table. -/
def declare (scope : Scope) (name : String) (line : Nat) : Except Fault Scope :=
  if scope.isSealed then .error (.lateTable name line)
  else if scope.declared.contains name then .error (.duplicateTable name line)
  else .ok { scope with declared := scope.declared ++ [name] }

/-- Ends declarations. -/
def endDeclarations (scope : Scope) : Scope := { scope with isSealed := true }

/-- The table that operations without a table work on. -/
def current? (scope : Scope) : Option String := scope.active.head?

/-- Makes a table active. -/
def activate (scope : Scope) (table : String) : Scope :=
  { scope with active := table :: scope.active }

/-- Makes the table active that was active before, and returns the one that no longer is. -/
def deactivate (scope : Scope) : Option String × Scope :=
  (scope.active.head?, { scope with active := scope.active.tail })

/-- Whether a table is declared or an open scope. -/
def isKnown (scope : Scope) (name : String) : Bool :=
  scope.declared.contains name || scope.opened.contains name

/-- A table that must be known. -/
def require (scope : Scope) (name : String) (line : Nat) : Except Fault String :=
  if scope.isKnown name then .ok name else .error (.undeclaredTable name line)

/-- The table of an operation: the active one if the operation names none. -/
def resolve (scope : Scope) (named : Option String) (operation : String) (line : Nat) :
    Except Fault String :=
  match named with
  | some name => scope.require name line
  | none =>
    match scope.current? with
    | some table => .ok table
    | none => .error (.noActiveTable operation line)

/-- Opens a scope and makes it active. -/
def openScope (scope : Scope) (name : String) (line : Nat) : Except Fault Scope :=
  if scope.isKnown name then .error (.duplicateTable name line)
  else .ok { scope with opened := name :: scope.opened, active := name :: scope.active }

/-- Closes the innermost scope. -/
def closeScope (scope : Scope) : Scope :=
  { scope with opened := scope.opened.tail, active := scope.active.tail }

end Scope

end ContentSpace
