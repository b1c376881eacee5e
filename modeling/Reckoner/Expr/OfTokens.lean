import Reckoner.Constant
import Reckoner.Decimal.Literal
import Reckoner.Error
import Reckoner.Expr.Basic
import Reckoner.Token.Basic
import Reckoner.Variables

/-!
# From tokens to expressions

The tokens are read once, from left to right, into a `Yard` of two stacks: the **operands**, which are
finished expressions, and what is **pending**, operators that wait for their last operand and
opening parentheses that wait for their partner.

* An operand token goes onto the operands, a unary operator or an opening parenthesis onto what is
  pending.
* A binary operator first lets every pending operator act that binds before it
  (`Yard.actBefore`), down to the nearest parenthesis, and is pending then itself.
* A closing parenthesis lets everything act back to its partner, and then a unary operator that
  stands directly in front of the group (`Yard.close`).
* At the end everything that is pending acts, and **one** operand has to be left (`Yard.finish`).

Operands are only counted when an operator takes them, so that an operator may also take operands
that stand elsewhere than beside it.
-/

namespace Reckoner

/-- What waits for more tokens. -/
inductive Pending where
  /-- an opening parenthesis, by the index of its token -/
  | group (token : Nat)
  /-- an operator -/
  | operator (operator : Operator)
  deriving DecidableEq, Repr

/-- What has been read of a list of tokens. -/
structure Yard where
  /-- the finished expressions, the newest first -/
  operands : List Expr
  /-- the pending operators and parentheses, the newest first -/
  pending : List Pending
  /-- the variables seen so far -/
  known : Variables
  deriving DecidableEq, Repr

/-! ## What tokens stand for -/

namespace Token

/-- The number in a number token. -/
def numberOf (text : String) : Except ParseError Decimal :=
  match Decimal.ofString? text with
  | some value => .ok value
  | none => .error (.invalidNumber text)

/-- The number that a constant token names. -/
def constantOf (text : String) : Except ParseError Decimal :=
  match Constant.ofName? text with
  | some constant => .ok constant.value
  | none => .error (.unknownConstant text)

/-- The operator of a unary operator token. -/
def unaryOf (text : String) : Except ParseError UnaryOp :=
  match UnaryOp.ofSymbol? text with
  | some op => .ok op
  | none => .error (.unknownOperator text)

/-- The operator of a binary operator token. -/
def binaryOf (text : String) : Except ParseError BinaryOp :=
  match BinaryOp.ofSymbol? text with
  | some op => .ok op
  | none => .error (.unknownOperator text)

end Token

namespace Yard

/-- Nothing has been read. -/
def empty : Yard := ⟨[], [], Variables.empty⟩

/-! ## Operators act -/

/-- An operator takes its operands and leaves the expression that it makes of them. -/
def act (seen : Nat) : Operator → List Expr → Except ParseError (List Expr)
  | .unary op, operand :: rest => .ok (.unary op operand :: rest)
  | .binary op, right :: left :: rest => .ok (.binary op left right seen :: rest)
  | operator, _ => .error (.missingOperand operator)

/-- Every pending operator that binds before `next` acts. -/
def actBefore (seen : Nat) (next : BinaryOp) :
    List Pending → List Expr → Except ParseError (List Pending × List Expr)
  | .operator operator :: pending, operands =>
    if operator.bindsBefore next then do
      actBefore seen next pending (← act seen operator operands)
    else .ok (.operator operator :: pending, operands)
  | pending, operands => .ok (pending, operands)

/-- A unary operator at the end of what is pending acts. -/
def actOnGroup (seen : Nat) :
    List Pending → List Expr → Except ParseError (List Pending × List Expr)
  | .operator (.unary op) :: pending, operands => do
    return (pending, ← act seen (.unary op) operands)
  | pending, operands => .ok (pending, operands)

/-- The closing parenthesis at `token` closes its group: everything in the group acts, and then a
unary operator in front of it. -/
def close (seen token : Nat) :
    List Pending → List Expr → Except ParseError (List Pending × List Expr)
  | [], _ => .error (.unmatchedParenthesis token)
  | .group _ :: pending, operands => actOnGroup seen pending operands
  | .operator operator :: pending, operands => do
    close seen token pending (← act seen operator operands)

/-- Everything that is pending acts. -/
def finish (seen : Nat) : List Pending → List Expr → Except ParseError (List Expr)
  | [], operands => .ok operands
  | .group token :: _, _ => .error (.unmatchedParenthesis token)
  | .operator operator :: pending, operands => do
    finish seen pending (← act seen operator operands)

/-! ## Reading tokens -/

/-- A finished expression is put onto the operands. -/
def pushOperand (yard : Yard) (operand : Expr) : Yard :=
  { yard with operands := operand :: yard.operands }

/-- An operator or a parenthesis is pending. -/
def pushPending (yard : Yard) (pending : Pending) : Yard :=
  { yard with pending := pending :: yard.pending }

/-- A variable is an operand with the index of its name. -/
def pushVariable (yard : Yard) (name : String) : Yard :=
  let (index, known) := yard.known.index name
  { yard with operands := .var name index :: yard.operands, known }

/-- The stacks are replaced. -/
def withStacks (yard : Yard) (new : List Pending × List Expr) : Yard :=
  { yard with pending := new.1, operands := new.2 }

/-- Reads the token with the given index. -/
def read (yard : Yard) (index : Nat) (token : Token) : Except ParseError Yard :=
  match token.kind with
  | .number => do return yard.pushOperand (.number (← Token.numberOf token.text))
  | .constant => do return yard.pushOperand (.number (← Token.constantOf token.text))
  | .letter => .ok (yard.pushVariable token.text)
  | .unary => do return yard.pushPending (.operator (.unary (← Token.unaryOf token.text)))
  | .opening => .ok (yard.pushPending (.group index))
  | .binary => do
    let op ← Token.binaryOf token.text
    let new ← actBefore yard.known.count op yard.pending yard.operands
    return (yard.withStacks new).pushPending (.operator (.binary op))
  | .closing => do
    return yard.withStacks (← close yard.known.count index yard.pending yard.operands)

/-- Reads tokens, the first of which has the given index. -/
def readFrom (yard : Yard) (index : Nat) : List Token → Except ParseError Yard
  | [] => .ok yard
  | token :: rest => do (← yard.read index token).readFrom (index + 1) rest

/-- The expression that has been read. -/
def result (yard : Yard) : Except ParseError Expr := do
  match ← finish yard.known.count yard.pending yard.operands with
  | [e] => return e
  | operands => throw (.leftoverOperands operands.length)

end Yard

/-- The expression that a list of tokens writes. -/
def Expr.ofTokens : List Token → Except ParseError Expr
  | [] => .error .noTokens
  | tokens => do (← Yard.empty.readFrom 0 tokens).result

end Reckoner
