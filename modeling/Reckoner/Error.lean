import Reckoner.Decimal.Notation
import Reckoner.Operator

/-!
# Errors

Why a text is no expression (`ParseError`) and why an expression has no value (`EvalError`), each
with the sentence that reports it.

Positions of characters count from zero in the text **without blanks**; positions of parentheses
count tokens instead.

Computations that may fail are sequenced with `>>=`. A sequence succeeds exactly if both of its
parts do, the second one on the result of the first (`bind_eq_ok`), and fails with the error of the
first part that does (`bind_eq_error`).
-/

namespace Reckoner

/-! ## Parsing -/

/-- Why a text or a list of tokens is no expression. -/
inductive ParseError where
  /-- the text is empty or blank -/
  | blankText
  /-- a character belongs to no token -/
  | unknownCharacter (character : Char) (position : Nat)
  /-- a run of digits and dots has several dots, or no digit -/
  | malformedNumber (literal : String) (position : Nat)
  /-- a name of several letters is neither a function nor a constant -/
  | unknownName (name : String) (position : Nat)
  /-- there are no tokens -/
  | noTokens
  /-- the parenthesis at this token has no partner -/
  | unmatchedParenthesis (token : Nat)
  /-- an operator has fewer operands than it takes -/
  | missingOperand (operator : Operator)
  /-- the tokens do not come down to one expression but to this many -/
  | leftoverOperands (count : Nat)
  /-- a number token does not hold a number -/
  | invalidNumber (literal : String)
  /-- an operator token does not hold an operator of its kind -/
  | unknownOperator (symbol : String)
  /-- a constant token does not hold the name of a constant -/
  | unknownConstant (name : String)
  deriving DecidableEq, Repr

/-- The sentence that reports the error. -/
def ParseError.message : ParseError → String
  | blankText => "Expression cannot be null or empty."
  | unknownCharacter character position =>
    s!"Unknown character '{character}' at position {position}."
  | malformedNumber literal position =>
    s!"Invalid number format: '{literal}' at position {position} has multiple dots or no digits."
  | unknownName name position =>
    s!"Variables must be single-letter: '{name}' at position {position}."
  | noTokens => "Token list cannot be null or empty."
  | unmatchedParenthesis token => s!"Mismatched parentheses at token {token}."
  | missingOperand operator => s!"Not enough operands for operator '{operator.symbol}'."
  | leftoverOperands count => s!"Invalid expression: {count} operands left after parsing."
  | invalidNumber literal => s!"Invalid numeric literal '{literal}'."
  | unknownOperator symbol => s!"Unknown operator '{symbol}'."
  | unknownConstant name => s!"Unknown constant '{name}'."

/-! ## Evaluation -/

/-- Why an expression has no value for given inputs. -/
inductive EvalError where
  /-- a quotient or a remainder by zero -/
  | divisionByZero
  /-- the square root of a number below zero -/
  | negativeSquareRoot (value : Decimal)
  /-- a logarithm of a number that is not above zero -/
  | nonPositiveLogarithm (op : UnaryOp) (value : Decimal)
  /-- a fractional power of a negative number -/
  | invalidExponent (base exponent : Decimal)
  /-- there is no input for a variable -/
  | missingInput (name : String) (index provided : Nat)
  /-- an operand or the result is out of the range of the computation -/
  | nonFinite (operator : Operator)
  /-- the operator has no meaning -/
  | unsupported (op : UnaryOp)
  deriving DecidableEq, Repr

/-- The sentence that reports the error. -/
def EvalError.message : EvalError → String
  | divisionByZero => "Division by zero."
  | negativeSquareRoot value => s!"Square root of negative number {value}."
  | nonPositiveLogarithm op value =>
    s!"Logarithm of non-positive number {value} in '{op.symbol}'."
  | invalidExponent base exponent =>
    s!"Negative base with fractional exponent is not real: {base} ^ {exponent}."
  | missingInput name index provided =>
    s!"Not enough values provided for variable '{name}': index {index}, but only {provided} given."
  | nonFinite operator => s!"Result of '{operator.symbol}' is not a finite number."
  | unsupported op => s!"Operator '{op.symbol}' is not supported."

/-! ## Both -/

/-- Why a text has no value for given inputs. -/
inductive Error where
  /-- the text is no expression -/
  | parse (error : ParseError)
  /-- the expression has no value -/
  | eval (error : EvalError)
  deriving DecidableEq, Repr

/-- The sentence that reports the error. -/
def Error.message : Error → String
  | parse error => error.message
  | eval error => error.message

/-! ## Sequences -/

variable {ε α β : Type}

/-- Inversion for a sequence of two computations. -/
theorem bind_eq_ok {x : Except ε α} {f : α → Except ε β} {b : β} :
    x >>= f = .ok b ↔ ∃ a, x = .ok a ∧ f a = .ok b := by
  constructor
  · intro h
    rcases x with error | a
    · cases h
    · exact ⟨a, rfl, h⟩
  · rintro ⟨a, rfl, h⟩
    exact h

/-- A sequence fails exactly if its first part does, or its second part does on the result of the
first. -/
theorem bind_eq_error {x : Except ε α} {f : α → Except ε β} {error : ε} :
    x >>= f = .error error ↔ x = .error error ∨ ∃ a, x = .ok a ∧ f a = .error error := by
  constructor
  · intro h
    rcases x with other | a
    · cases h
      exact .inl rfl
    · exact .inr ⟨a, rfl, h⟩
  · rintro (rfl | ⟨a, rfl, h⟩)
    · rfl
    · exact h

@[simp] theorem ok_bind (a : α) (f : α → Except ε β) : (.ok a : Except ε α) >>= f = f a := rfl

@[simp] theorem error_bind (error : ε) (f : α → Except ε β) :
    (.error error : Except ε α) >>= f = .error error := rfl

@[simp] theorem pure_eq_ok (a : α) : (pure a : Except ε α) = .ok a := rfl

end Reckoner
