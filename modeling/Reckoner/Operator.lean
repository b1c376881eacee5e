/-!
# Operators

The operators of expressions, their symbols, and how tightly the binary ones bind.

* A **unary** operator is the minus sign or the name of a function, written before its operand.
* A **binary** operator stands between its operands. Sums bind loosest and powers tightest
  (`BinaryOp.precedence`); only powers group to the right.
-/

namespace Reckoner

/-! ## Unary operators -/

/-- An operator of one operand. -/
inductive UnaryOp where
  /-- the opposite number -/
  | negate
  /-- the sine of an angle in radians -/
  | sin
  /-- the cosine of an angle in radians -/
  | cos
  /-- the tangent of an angle in radians -/
  | tan
  /-- the arctangent, in radians -/
  | atan
  /-- another name for the arctangent -/
  | catan
  /-- a reserved name without a meaning -/
  | acatan
  /-- the natural logarithm -/
  | ln
  /-- the logarithm to base ten -/
  | lg
  /-- the square root -/
  | sqrt
  /-- the absolute value -/
  | abs
  deriving DecidableEq, Repr

namespace UnaryOp

/-- The operators that are written as a name: all but the minus sign. -/
def functions : List UnaryOp := [sin, cos, tan, catan, atan, acatan, ln, lg, sqrt, abs]

/-- The operator as it is written. -/
def symbol : UnaryOp → String
  | negate => "-"
  | sin => "sin"
  | cos => "cos"
  | tan => "tan"
  | atan => "atan"
  | catan => "catan"
  | acatan => "acatan"
  | ln => "ln"
  | lg => "lg"
  | sqrt => "sqrt"
  | abs => "abs"

/-- The function with the given name. -/
def function? (name : String) : Option UnaryOp := functions.find? (·.symbol = name)

/-- The operator with the given symbol. -/
def ofSymbol? (symbol : String) : Option UnaryOp :=
  if symbol = "-" then some negate else function? symbol

end UnaryOp

/-! ## Binary operators -/

/-- An operator of two operands. -/
inductive BinaryOp where
  /-- the sum -/
  | add
  /-- the difference -/
  | sub
  /-- the product -/
  | mul
  /-- the quotient -/
  | div
  /-- the remainder -/
  | rem
  /-- the power -/
  | pow
  deriving DecidableEq, Repr

namespace BinaryOp

/-- All binary operators. -/
def all : List BinaryOp := [add, sub, mul, div, rem, pow]

/-- The operator as it is written. -/
def symbol : BinaryOp → String
  | add => "+"
  | sub => "-"
  | mul => "*"
  | div => "/"
  | rem => "%"
  | pow => "^"

/-- The operator with the given symbol. -/
def ofSymbol? (symbol : String) : Option BinaryOp := all.find? (·.symbol = symbol)

/-- How tightly the operator binds. -/
def precedence : BinaryOp → Nat
  | add | sub => 1
  | mul | div | rem => 2
  | pow => 3

/-- Whether a chain of the operator groups to the right. -/
def isRightAssociative : BinaryOp → Bool
  | pow => true
  | _ => false

end BinaryOp

/-! ## Operators of either kind -/

/-- A unary or a binary operator. -/
inductive Operator where
  /-- an operator of one operand -/
  | unary (op : UnaryOp)
  /-- an operator of two operands -/
  | binary (op : BinaryOp)
  deriving DecidableEq, Repr

namespace Operator

/-- The operator as it is written. -/
def symbol : Operator → String
  | unary op => op.symbol
  | binary op => op.symbol

/-- Whether an operator that is waiting for its last operand takes that operand before the binary
operator `next` does: unary operators always, binary ones if they bind more tightly or group to the
left at the same precedence. -/
def bindsBefore (next : BinaryOp) : Operator → Bool
  | unary _ => true
  | binary op =>
    next.precedence < op.precedence ||
      (op.precedence == next.precedence && !next.isRightAssociative)

end Operator

end Reckoner
