import Reckoner.Decimal.Notation
import Reckoner.Operator

/-!
# Expressions

An expression is a tree of operators over numbers and variables.

* A **variable** carries its name and its index, the place of its value among the inputs.
* A **binary** node carries the number of variables that had been seen when it was built, which
  may be more than its own operands mention.

Two trees are the same (`Expr.same`) if they agree in everything, numbers being compared by value.

In **infix notation** an expression is written with parentheses around every binary operation and around
the operand of every unary one, so the notation shows the tree and needs no precedence.
-/

namespace Reckoner

/-- An arithmetic expression. -/
inductive Expr where
  /-- a number, which constants are too -/
  | number (value : Decimal)
  /-- a variable by its name and the place of its value among the inputs -/
  | var (name : String) (index : Nat)
  /-- an operator applied to one operand -/
  | unary (op : UnaryOp) (operand : Expr)
  /-- an operator applied to two operands, with the number of variables seen until then -/
  | binary (op : BinaryOp) (left right : Expr) (seen : Nat)
  deriving DecidableEq, Repr

namespace Expr

/-- The two trees agree in operators, names, indices and numbers of variables seen, and their
numbers are of equal value. -/
def same : Expr → Expr → Bool
  | number a, number b => a.sameValue b
  | var name index, var name' index' => name == name' && index == index'
  | unary op operand, unary op' operand' => op == op' && operand.same operand'
  | binary op left right seen, binary op' left' right' seen' =>
    op == op' && left.same left' && right.same right' && seen == seen'
  | _, _ => false

/-- How many inputs the expression asks for: as many as its outermost binary node has seen variables,
or else as many as it takes to reach its only variable. -/
def variableCount : Expr → Nat
  | number _ => 0
  | var _ index => index + 1
  | unary _ operand => operand.variableCount
  | binary _ _ _ seen => seen

/-- How many nodes the tree has. -/
def size : Expr → Nat
  | number _ => 1
  | var _ _ => 1
  | unary _ operand => operand.size + 1
  | binary _ left right _ => left.size + right.size + 1

@[simp] theorem same_self (e : Expr) : e.same e = true := by
  induction e with
  | number value => simp [same]
  | var name index => simp [same]
  | unary op operand ih => simp [same, ih]
  | binary op left right seen ihl ihr => simp [same, ihl, ihr]

/-! ## Infix notation -/

/-- The infix notation of an expression, as a list of characters. -/
def toChars : Expr → List Char
  | number value => value.toChars
  | var name _ => name.toList
  | unary op operand => op.symbol.toList ++ ['('] ++ operand.toChars ++ [')']
  | binary op left right _ =>
    ['('] ++ left.toChars ++ [' '] ++ op.symbol.toList ++ [' '] ++ right.toChars ++ [')']

/-- The infix notation of an expression. -/
def toText (e : Expr) : String := String.ofList e.toChars

instance : ToString Expr := ⟨toText⟩

end Expr

end Reckoner
