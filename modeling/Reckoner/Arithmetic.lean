import Reckoner.Binary64.Power
import Reckoner.Binary64.Shortest
import Reckoner.Decimal.Quotient
import Reckoner.Error

/-!
# Arithmetic

What the operators compute.

* Negation, absolute values, sums, differences, products and remainders are **exact**.
* A quotient is rounded to a **fixed number** of digits after the point, the division scale.
* All other functions go **through binary64**: the operand is converted, the function is applied, and
  the shortest decimal for its result is taken.

Whether an operand is in the domain of a function is decided on the decimal, before any conversion;
only a power looks at the converted operands.
-/

namespace Reckoner

/-- A decimal as a binary64 number, on behalf of an operator. -/
def Operator.toBinary64 (operator : Operator) (value : Decimal) : Except EvalError Binary64 :=
  match value.toBinary64? with
  | some x => .ok x
  | none => .error (.nonFinite operator)

/-- The decimal for the result of an operator's computation in binary64. -/
def Operator.ofBinary64 (operator : Operator) : Option Binary64 → Except EvalError Decimal
  | some x => .ok x.toDecimal
  | none => .error (.nonFinite operator)

namespace UnaryOp

/-- Applies a function of binary64 numbers to a decimal. -/
def throughBinary64 (op : UnaryOp) (f : Binary64 → Option Binary64) (value : Decimal) :
    Except EvalError Decimal := do
  (Operator.unary op).ofBinary64 (f (← (Operator.unary op).toBinary64 value))

/-- Applies a logarithm to a decimal, which has to be positive. -/
def logarithm (op : UnaryOp) (f : Binary64 → Option Binary64) (value : Decimal) :
    Except EvalError Decimal :=
  if value.IsPositive then op.throughBinary64 f value
  else .error (.nonPositiveLogarithm op value)

/-- The value of a unary operator. -/
def apply (op : UnaryOp) (value : Decimal) : Except EvalError Decimal :=
  match op with
  | negate => .ok (-value)
  | abs => .ok value.abs
  | sin => op.throughBinary64 Binary64.sin? value
  | cos => op.throughBinary64 Binary64.cos? value
  | tan => op.throughBinary64 Binary64.tan? value
  | atan | catan => op.throughBinary64 Binary64.arctan? value
  | acatan => .error (.unsupported op)
  | sqrt =>
    if value.IsNegative then .error (.negativeSquareRoot value)
    else op.throughBinary64 Binary64.sqrt? value
  | ln => op.logarithm Binary64.ln? value
  | lg => op.logarithm Binary64.log10? value

end UnaryOp

namespace BinaryOp

/-- The power of two decimals, computed in binary64. A negative number has no fractional power; both
are judged after conversion. -/
def power (base exponent : Decimal) : Except EvalError Decimal := do
  let operator := Operator.binary pow
  let b ← operator.toBinary64 base
  let e ← operator.toBinary64 exponent
  if b.IsNegative ∧ ¬ e.IsIntegral then throw (.invalidExponent base exponent)
  operator.ofBinary64 (b.pow? e)

/-- The value of a binary operator, where quotients keep `divisionScale` digits after the point. -/
def apply (divisionScale : Int) (op : BinaryOp) (left right : Decimal) :
    Except EvalError Decimal :=
  match op with
  | add => .ok (left + right)
  | sub => .ok (left - right)
  | mul => .ok (left * right)
  | div =>
    if right.IsZero then .error .divisionByZero
    else
      match Decimal.quotient? divisionScale left right with
      | some quotient => .ok quotient
      | none => .error (.nonFinite (.binary op))
  | rem => if right.IsZero then .error .divisionByZero else .ok (left % right)
  | pow => power left right

end BinaryOp

end Reckoner
