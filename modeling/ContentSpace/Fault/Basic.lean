import ContentSpace.Fault.Cause
import ContentSpace.Value.Basic

/-!
# Faults

A fault is the reason why an operation of the library has no result. It has a stable code, a
message, and for source text the line on which it arose. A failure is a fault with what is known
about where it arose.
-/

namespace ContentSpace

/-- Why an operation has no result. -/
inductive Fault where
  /-- A token of the source does not fit. -/
  | syntaxError (problem : SyntaxProblem) (found : String) (line : Nat)
  /-- A table is declared twice. -/
  | duplicateTable (name : String) (line : Nat)
  /-- A table is used that is not declared. -/
  | undeclaredTable (name : String) (line : Nat)
  /-- An operation names no table and none is active. -/
  | noActiveTable (operation : String) (line : Nat)
  /-- A table is declared after the first block. -/
  | lateTable (name : String) (line : Nat)
  /-- A block repeats a parameter. -/
  | duplicateParameter (block name : String) (line : Nat)
  /-- Text is not the canonical text of a value. -/
  | malformed (defect : Defect) (offset : Nat)
  /-- A handle or alias is not bound. -/
  | notFound (table handle : String)
  /-- No table has this name. -/
  | unknownTable (name : String)
  /-- An alias is refused. -/
  | aliasRefused (problem : AliasProblem)
  /-- A use of a scope is refused. -/
  | scopeRefused (problem : ScopeProblem)
  /-- A value has the wrong kind. -/
  | wrongKind (expected actual : Kind)
  /-- Bytes are no snapshot. -/
  | unreadable (detail : String)
  /-- Something that must never happen. -/
  | internal (problem : InternalProblem)
  deriving DecidableEq

namespace Fault

/-- The stable code of a fault. -/
def code : Fault → String
  | syntaxError .. => "E_SYNTAX"
  | duplicateTable .. => "E_LS_DUPLICATE_ALIAS"
  | undeclaredTable .. => "E_LS_UNDECLARED_TABLE"
  | noActiveTable .. => "E_LS_MISSING_ACTIVE_TABLE"
  | lateTable .. => "E_LS_ORDERING"
  | duplicateParameter .. => "E_PARAM_DUPLICATE"
  | malformed .. => "E_LC_DECODE"
  | notFound .. => "E_LS_NOT_FOUND"
  | unknownTable .. => "E_LS_UNKNOWN_TABLE"
  | aliasRefused .. => "E_LS_ALIAS"
  | scopeRefused .. => "E_LS_SCOPE"
  | wrongKind .. => "E_LS_TYPE"
  | unreadable .. => "E_SERIALIZATION"
  | internal .. => "E_INTERNAL"

/-- The line of source text on which a fault arose. -/
def line? : Fault → Option Nat
  | syntaxError _ _ line => some line
  | duplicateTable _ line => some line
  | undeclaredTable _ line => some line
  | noActiveTable _ line => some line
  | lateTable _ line => some line
  | duplicateParameter _ _ line => some line
  | _ => none

/-- The line of a fault as part of its message. -/
def inLine (line : Nat) : String := " (line " ++ countText line ++ ")"

/-- The message of a fault. -/
def message : Fault → String
  | syntaxError problem found line =>
    "syntax error at line " ++ countText line ++ ": " ++ problem.message ++
      " (found " ++ Text.quoted found ++ ")"
  | duplicateTable name line => "latent table '" ++ name ++ "' declared twice" ++ inLine line
  | undeclaredTable name line => "latent table '" ++ name ++ "' is not declared" ++ inLine line
  | noActiveTable operation line =>
    "'" ++ operation ++ "' needs an active latent table" ++ inLine line
  | lateTable name line =>
    "latent table '" ++ name ++ "' declared after the first block" ++ inLine line
  | duplicateParameter block name line =>
    "parameter '" ++ name ++ "' repeated in block '" ++ block ++ "'" ++ inLine line
  | malformed defect offset =>
    "LC decode error at byte " ++ countText offset ++ ": " ++ defect.message
  | notFound table handle => "handle '" ++ handle ++ "' not found in table '" ++ table ++ "'"
  | unknownTable name => "unknown latent table '" ++ name ++ "'"
  | aliasRefused problem => "alias error: " ++ problem.message
  | scopeRefused problem => "scope error: " ++ problem.message
  | wrongKind expected actual =>
    "type mismatch: expected " ++ expected.name ++ ", got " ++ actual.name
  | unreadable detail => "serialization error: " ++ detail
  | internal problem => "internal error: " ++ problem.message

end Fault

/-- What is known about where a fault arose. -/
structure Origin where
  /-- The program or table concerned. -/
  source : Option String := none
  /-- The line in it. -/
  line : Option Nat := none
  /-- Enclosing constructs, the innermost last. -/
  frames : List String := []
  deriving DecidableEq

/-- The text of an origin: the source with its line, then each construct on a line of its own. -/
def Origin.display (origin : Origin) : String :=
  let head := match origin.source with
    | none => ""
    | some source => "at " ++ source ++ (origin.line.elim "" fun line => ":" ++ countText line)
  if origin.frames.isEmpty then head
  else head ++ "\n" ++ String.join (origin.frames.map fun frame => "  in " ++ frame ++ "\n")

/-- A fault together with where it arose. -/
structure Failure where
  /-- The fault. -/
  fault : Fault
  /-- Where it arose, if that is known. -/
  origin : Option Origin := none
  deriving DecidableEq

/-- The source that a failure names. -/
def Failure.source? (failure : Failure) : Option String := failure.origin.bind Origin.source

end ContentSpace
