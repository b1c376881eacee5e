import Reckoner.Constant
import Reckoner.Error
import Reckoner.Letter.Case
import Reckoner.Token.Basic
import Reckoner.Token.Lexeme

/-!
# From text to tokens

Each lexeme becomes one token. What a lexeme is depends on itself alone, with one exception: a minus
sign is **unary** where an operand has to begin, which is at the start of the text and after an
opening parenthesis or a binary operator, and binary elsewhere.

The first lexeme that is no token decides the error, and its position is the number of characters
before it.
-/

namespace Reckoner.Token

/-- The characters of the binary operators. -/
def isOperator (c : Char) : Bool :=
  c = '+' || c = '-' || c = '*' || c = '/' || c = '%' || c = '^'

/-- The token of a character that is part of no run. -/
def ofSymbol (operandDue : Bool) (position : Nat) (c : Char) : Except ParseError Token :=
  if c = '(' then .ok ⟨.opening, "("⟩
  else if c = ')' then .ok ⟨.closing, ")"⟩
  else if c = '-' ∧ operandDue then .ok ⟨.unary, "-"⟩
  else if isOperator c then .ok ⟨.binary, String.singleton c⟩
  else .error (.unknownCharacter c position)

/-- The token of a run of digits and points: a number has a digit and at most one point. -/
def ofNumeral (position : Nat) (run : List Char) : Except ParseError Token :=
  if 1 < run.count '.' ∨ ¬ run.any Char.isDigit then
    .error (.malformedNumber (String.ofList run) position)
  else .ok ⟨.number, String.ofList run⟩

/-- The token of a run of letters, read in lower case: a function, a constant or a variable. -/
def ofWord (position : Nat) (run : List Char) : Except ParseError Token :=
  let letters := Letter.lowerCase run
  let name := String.ofList letters
  if (UnaryOp.function? name).isSome then .ok ⟨.unary, name⟩
  else if (Constant.ofName? name).isSome then .ok ⟨.constant, name⟩
  else if letters.length = 1 then .ok ⟨.letter, name⟩
  else .error (.unknownName name position)

/-- The token of a lexeme. -/
def ofLexeme (operandDue : Bool) (position : Nat) : Lexeme → Except ParseError Token
  | .symbol c => ofSymbol operandDue position c
  | .numeral run => ofNumeral position run
  | .word run => ofWord position run

/-- The tokens of the lexemes from a position on. -/
def ofLexemes (operandDue : Bool) (position : Nat) : List Lexeme → Except ParseError (List Token)
  | [] => .ok []
  | lexeme :: rest => do
    let token ← ofLexeme operandDue position lexeme
    let tokens ← ofLexemes token.kind.awaitsOperand (position + lexeme.chars.length) rest
    return token :: tokens

/-- The tokens of a text. -/
def scan (text : String) : Except ParseError (List Token) :=
  match Lexeme.normalForm text.toList with
  | [] => .error .blankText
  | normal => ofLexemes true 0 (Lexeme.cut normal)

end Reckoner.Token
