/-!
# Tokens

A token is a piece of an expression's text together with its kind. The text of a word is its
lower-case form. Nothing ties the text of a token to its kind: lists of tokens may also be put
together by hand, and the parser checks what it is given.
-/

namespace Reckoner

/-- What a token is. -/
inductive Token.Kind where
  /-- a number in digits -/
  | number
  /-- a single letter, which names a variable -/
  | letter
  /-- the name of a constant -/
  | constant
  /-- an operator between two operands -/
  | binary
  /-- a minus sign or a function before its operand -/
  | unary
  /-- an opening parenthesis -/
  | opening
  /-- a closing parenthesis -/
  | closing
  deriving DecidableEq, Repr

/-- A piece of an expression's text. -/
structure Token where
  /-- what the token is -/
  kind : Token.Kind
  /-- how it is written -/
  text : String
  deriving DecidableEq, Repr

namespace Token

/-- All kinds of token. -/
def Kind.all : List Kind := [.number, .letter, .constant, .binary, .unary, .opening, .closing]

/-- The name of a kind. -/
def Kind.name : Kind → String
  | .number => "NUMBER"
  | .letter => "VARIABLE"
  | .constant => "CONSTANT"
  | .binary => "BINARY_OP"
  | .unary => "UNARY_OP"
  | .opening => "LPAREN"
  | .closing => "RPAREN"

/-- The kind with the given name. -/
def Kind.ofName? (name : String) : Option Kind := Kind.all.find? (·.name = name)

/-- After a token of the kind an operand has to begin, so that a minus sign negates it. -/
def Kind.awaitsOperand : Kind → Bool
  | .opening | .binary => true
  | _ => false

/-- The text of the token and its kind. -/
def describe (token : Token) : String := s!"{token.text} ({token.kind.name})"

end Token

end Reckoner
