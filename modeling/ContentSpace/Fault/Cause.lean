import ContentSpace.Number.Numeral
import ContentSpace.Text.Quoted

/-!
# Causes of failure

Each group of failures has a type that says what went wrong. The wording stands beside each type,
in one function, and takes part in no decision.
-/

namespace ContentSpace

/-- The decimal text of a count, for messages. -/
def countText (n : Nat) : String := String.ofList (Numeral.digits n)

/-- What a token of source text failed to be. -/
inductive SyntaxProblem where
  /-- A certain symbol, operator or keyword must stand here. -/
  | expected (word : String)
  /-- A plain name must stand here. -/
  | expectedName
  /-- The source must end here. -/
  | expectedEnd
  /-- An expression must start here. -/
  | expectedExpression
  /-- The name of a field must stand here. -/
  | expectedFieldName
  /-- The number of a positional field must stand here. -/
  | expectedFieldPosition
  /-- The number of a contract must stand here. -/
  | expectedContract
  /-- The name of an object field must stand here. -/
  | expectedObjectKey
  /-- A dotted path has nothing between two of its dots. -/
  | emptyFieldName
  /-- Only a plain name can be assigned to. -/
  | assignmentToField
  /-- No primitive operation has this name. -/
  | unknownPrimitive
  /-- A number that cannot be read. -/
  | malformedNumber
  /-- The tree would be deeper than the configuration allows. -/
  | tooDeep (limit : Nat)
  /-- The operation has no place for a piped value. -/
  | notAStage (operator : String)
  /-- The operation takes another number of arguments. -/
  | wrongArgumentCount (operator : String)
  /-- The last argument must be a literal text. -/
  | tagNotLiteral
  /-- A problem stated by the caller. -/
  | stated (text : String)
  deriving DecidableEq

/-- The wording of a syntax problem. -/
def SyntaxProblem.message : SyntaxProblem → String
  | expected word => "expected '" ++ word ++ "'"
  | expectedName => "expected identifier"
  | expectedEnd => "expected end of input"
  | expectedExpression => "expected expression"
  | expectedFieldName => "expected field name"
  | expectedFieldPosition => "expected field position"
  | expectedContract => "expected contract id"
  | expectedObjectKey => "expected object key"
  | emptyFieldName => "empty field name"
  | assignmentToField => "cannot assign to a field"
  | unknownPrimitive => "unknown sys intrinsic"
  | malformedNumber => "malformed number"
  | tooDeep limit => "nesting deeper than " ++ countText limit ++ " levels"
  | notAStage operator => "'" ++ operator ++ "' cannot be a pipeline stage"
  | wrongArgumentCount operator => "wrong number of arguments to '" ++ operator ++ "'"
  | tagNotLiteral => "collapse tag must be a string literal"
  | stated text => text

/-- What makes text no canonical text of a value. -/
inductive Defect where
  /-- The text ends where a value or a name must start. -/
  | endOfText
  /-- No value starts with this character. -/
  | unexpected (c : Char)
  /-- Arrays and objects nest deeper than allowed. -/
  | tooDeep (limit : Nat)
  /-- A number without its end mark. -/
  | unterminatedNumber
  /-- An integer with a sign or zeros that its canonical form lacks, or with other characters. -/
  | nonCanonicalInteger (text : String)
  /-- An integer of more than 64 bits. -/
  | integerOutOfRange (text : String)
  /-- A double that is not in its canonical form. -/
  | malformedFloat (text : String)
  /-- Text without its closing quote. -/
  | unterminatedString
  /-- A backslash before a character that needs none. -/
  | invalidEscape
  /-- A field of an object must start with its name. -/
  | expectedKey
  /-- A name that does not stand after the name before it. -/
  | unsortedKeys
  /-- Further text after the value. -/
  | trailingText
  /-- A defect stated by the caller. -/
  | stated (text : String)
  deriving DecidableEq

/-- The wording of a defect. -/
def Defect.message : Defect → String
  | endOfText => "unexpected end of stream"
  | unexpected c => "unexpected " ++ Text.quotedChar c
  | tooDeep limit => "nesting deeper than " ++ countText limit
  | unterminatedNumber => "unterminated number"
  | nonCanonicalInteger text => "non-canonical integer " ++ Text.quoted text
  | integerOutOfRange text => "integer " ++ text ++ " out of range"
  | malformedFloat text => "malformed float " ++ Text.quoted text
  | unterminatedString => "unterminated string"
  | invalidEscape => "invalid escape"
  | expectedKey => "expected string key"
  | unsortedKeys => "object keys not in sorted order"
  | trailingText => "trailing input after value"
  | stated text => text

/-- Why an alias cannot be bound or removed. -/
inductive AliasProblem where
  /-- The name is itself a handle. -/
  | isHandle (name table : String)
  /-- The name already names another handle. -/
  | namesOther (name handle table : String)
  /-- The name is no alias. -/
  | notAnAlias (name table : String)
  /-- A problem stated by the caller. -/
  | stated (text : String)
  deriving DecidableEq

/-- The wording of an alias problem. -/
def AliasProblem.message : AliasProblem → String
  | isHandle name table => "'" ++ name ++ "' is a handle in table '" ++ table ++ "'"
  | namesOther name handle table =>
    "'" ++ name ++ "' already names " ++ handle ++ " in table '" ++ table ++ "'"
  | notAnAlias name table => "'" ++ name ++ "' is not an alias in table '" ++ table ++ "'"
  | stated text => text

/-- Why a scope cannot be opened, used or closed. -/
inductive ScopeProblem where
  /-- A table of this name exists. -/
  | alreadyExists (table : String)
  /-- The table was not opened as a scope. -/
  | notAScope (table : String)
  /-- Another scope is open inside this one. -/
  | hasOpenScope (table inner : String)
  /-- A problem stated by the caller. -/
  | stated (text : String)
  deriving DecidableEq

/-- The wording of a scope problem. -/
def ScopeProblem.message : ScopeProblem → String
  | alreadyExists table => "table '" ++ table ++ "' already exists"
  | notAScope table => "table '" ++ table ++ "' is not a scope"
  | hasOpenScope table inner => "scope '" ++ table ++ "' still has open scope '" ++ inner ++ "'"
  | stated text => text

/-- What must never happen. -/
inductive InternalProblem where
  /-- Every handle of a fingerprint is held by other content. -/
  | fingerprintCollision (fingerprint table : String)
  /-- A problem stated by the caller. -/
  | stated (text : String)
  deriving DecidableEq

/-- The wording of an internal problem. -/
def InternalProblem.message : InternalProblem → String
  | fingerprintCollision fingerprint table =>
    "fingerprint " ++ fingerprint ++ " collides in table '" ++ table ++ "'"
  | stated text => text

end ContentSpace
