import Reckoner.Expr.OfTokens
import Reckoner.Proofs.Expr.Numbering

/-!
# Infix notation

The grammar that tokens in infix notation follow, independent of how they are read:

    sum      := product (('+' | '-') product)*            grouping to the left
    product  := power (('*' | '/' | '%') power)*          grouping to the left
    power    := operand | operand '^' power               grouping to the right
    operand  := unary-operator operand | atom
    atom     := number | variable | constant | '(' sum ')'

A `Derivation` is a derivation tree of this grammar. The texts of its tokens are those of the list of
tokens that it derives (`Derivation.tokens`), and each text that stands for something carries the
proof that it does, so that all derivations are over tokens that can be read. The expression that a
derivation **means** is the derivation without its parentheses and chains (`Derivation.tree`).
-/

namespace Reckoner

/-- The nonterminals of the grammar, from the loosest to the tightest. -/
inductive Tier where
  /-- sums and differences -/
  | sum
  /-- products, quotients and remainders -/
  | product
  /-- powers -/
  | power
  /-- atoms with unary operators in front of them -/
  | operand
  /-- leaves and groups -/
  | atom
  deriving DecidableEq, Repr

/-- A derivation tree whose root is the given nonterminal. -/
inductive Derivation : Tier → Type where
  /-- a number -/
  | number (text : String) (value : Decimal) (reads : Decimal.ofString? text = some value) :
      Derivation .atom
  /-- a variable -/
  | letter (name : String) : Derivation .atom
  /-- a constant -/
  | constant (name : String) (value : Decimal) (reads : Token.constantOf name = .ok value) :
      Derivation .atom
  /-- a sum between parentheses, however these are written -/
  | group (opening : String) (inner : Derivation .sum) (closing : String) : Derivation .atom
  /-- an operand without a unary operator -/
  | ofAtom (atom : Derivation .atom) : Derivation .operand
  /-- an operand with a unary operator in front -/
  | unary (text : String) (op : UnaryOp) (reads : UnaryOp.ofSymbol? text = some op)
      (operand : Derivation .operand) : Derivation .operand
  /-- a power without an exponent -/
  | ofOperand (operand : Derivation .operand) : Derivation .power
  /-- a power with an exponent -/
  | raise (base : Derivation .operand) (text : String)
      (reads : BinaryOp.ofSymbol? text = some .pow) (exponent : Derivation .power) :
      Derivation .power
  /-- a product of one factor -/
  | ofPower (power : Derivation .power) : Derivation .product
  /-- a product with one factor more -/
  | multiply (left : Derivation .product) (text : String) (op : BinaryOp)
      (reads : BinaryOp.ofSymbol? text = some op) (mem : op ∈ [.mul, .div, .rem])
      (right : Derivation .power) : Derivation .product
  /-- a sum of one product -/
  | ofProduct (product : Derivation .product) : Derivation .sum
  /-- a sum with one product more -/
  | add (left : Derivation .sum) (text : String) (op : BinaryOp)
      (reads : BinaryOp.ofSymbol? text = some op) (mem : op ∈ [.add, .sub])
      (right : Derivation .product) : Derivation .sum

namespace Derivation

/-- The tokens that are derived, from left to right. -/
def tokens {tier : Tier} : Derivation tier → List Token
  | number text _ _ => [⟨.number, text⟩]
  | letter name => [⟨.letter, name⟩]
  | constant name _ _ => [⟨.constant, name⟩]
  | group opening inner closing => ⟨.opening, opening⟩ :: inner.tokens ++ [⟨.closing, closing⟩]
  | ofAtom atom => atom.tokens
  | unary text _ _ operand => ⟨.unary, text⟩ :: operand.tokens
  | ofOperand operand => operand.tokens
  | raise base text _ exponent => base.tokens ++ ⟨.binary, text⟩ :: exponent.tokens
  | ofPower power => power.tokens
  | multiply left text _ _ _ right => left.tokens ++ ⟨.binary, text⟩ :: right.tokens
  | ofProduct product => product.tokens
  | add left text _ _ _ right => left.tokens ++ ⟨.binary, text⟩ :: right.tokens

/-- The bare tree of the derivation: an operator at every node with an operator, with the
subderivations for its operands. -/
def tree {tier : Tier} : Derivation tier → Expr
  | number _ value _ => .number value
  | letter name => .var name 0
  | constant _ value _ => .number value
  | group _ inner _ => inner.tree
  | ofAtom atom => atom.tree
  | unary _ op _ operand => .unary op operand.tree
  | ofOperand operand => operand.tree
  | raise base _ _ exponent => .binary .pow base.tree exponent.tree 0
  | ofPower power => power.tree
  | multiply left _ op _ _ right => .binary op left.tree right.tree 0
  | ofProduct product => product.tree
  | add left _ op _ _ right => .binary op left.tree right.tree 0

variable {tier : Tier}

@[simp] theorem bare_tree (d : Derivation tier) : d.tree.bare = d.tree := by
  induction d <;> simp_all [tree, Expr.bare]

theorem tokens_ne_nil (d : Derivation tier) : d.tokens ≠ [] := by
  induction d <;> simp_all [tokens]

end Derivation

end Reckoner
