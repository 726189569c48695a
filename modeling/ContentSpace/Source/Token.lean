import ContentSpace.Source.Span

/-!
# Tokens

A token has a kind, a text and a place. The text of a string is what stands between its quotes, with
escapes as they were written; the text of every other token is what stands in the source.
-/

namespace ContentSpace

/-- The kinds of tokens. -/
inductive TokenKind where
  /-- A reserved word, or a name in a privileged namespace. -/
  | keyword
  /-- A name, which may be dotted. -/
  | identifier
  /-- Digits. -/
  | integer
  /-- Digits with a point among them. -/
  | float
  /-- Quoted text. -/
  | string
  /-- An embedded value between braces. -/
  | blob
  /-- An operator. -/
  | operator
  /-- A punctuation character. -/
  | symbol
  /-- The end of the source. -/
  | finish
  deriving DecidableEq

/-- The name of a kind of tokens. -/
def TokenKind.name : TokenKind → String
  | keyword => "keyword"
  | identifier => "identifier"
  | integer => "integer"
  | float => "float"
  | string => "string"
  | blob => "value blob"
  | operator => "operator"
  | symbol => "symbol"
  | finish => "end of input"

/-- All kinds of tokens. -/
def TokenKind.all : List TokenKind :=
  [keyword, identifier, integer, float, string, blob, operator, symbol, finish]

/-- The kind with a name. -/
def TokenKind.ofName? (text : String) : Option TokenKind := all.find? fun kind => kind.name == text

/-- A token of source text. -/
structure Token where
  /-- What kind of token it is. -/
  kind : TokenKind
  /-- Its text. -/
  text : String
  /-- Where it stands. -/
  span : Span
  deriving DecidableEq

namespace Token

/-- The line on which a token starts. -/
def line (token : Token) : Nat := token.span.line

/-- Whether a token has a kind and a text. -/
def is (token : Token) (kind : TokenKind) (text : String) : Bool :=
  token.kind == kind && token.text == text

/-- Whether a token is a certain keyword. -/
def isKeyword (token : Token) (word : String) : Bool := token.is .keyword word

/-- Whether a token is a certain symbol. -/
def isSymbol (token : Token) (word : String) : Bool := token.is .symbol word

/-- Whether a token is a certain operator. -/
def isOperator (token : Token) (word : String) : Bool := token.is .operator word

/-- How a token is named in messages. -/
def describe (token : Token) : String :=
  match token.kind with
  | .finish => "end of input"
  | .string => "\"" ++ token.text ++ "\""
  | _ => token.text

end Token

end ContentSpace
