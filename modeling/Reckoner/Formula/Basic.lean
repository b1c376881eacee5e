import Reckoner.Expr.OfTokens
import Reckoner.Token.Scan

/-!
# Formulas

A formula is an expression together with the options it is to be computed with. It is a function
from an ordered list of inputs to a number: variables are bound to inputs by their indices, that is
in the order of their first use in the text.
-/

namespace Reckoner

/-- How a formula is computed. -/
structure Options where
  /-- how many digits after the point a quotient keeps -/
  divisionScale : Int := 20
  deriving DecidableEq, Repr

/-- An expression that is ready to be computed. -/
structure Formula where
  /-- the expression -/
  root : Expr
  /-- how it is computed -/
  options : Options := {}
  deriving DecidableEq, Repr

namespace Formula

/-- How many inputs the formula asks for. -/
def variableCount (formula : Formula) : Nat := formula.root.variableCount

/-- The two formulas have the same tree and the same options. -/
def same (formula other : Formula) : Bool :=
  formula.root.same other.root && formula.options == other.options

/-- The formula that a text writes, with the options that hold by default. -/
def compile (text : String) : Except ParseError Formula := do
  return { root := ← Expr.ofTokens (← Token.scan text) }

end Formula

end Reckoner
