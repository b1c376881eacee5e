import Reckoner.Decimal.Basic

/-!
# Constants

The named numbers, each with the shortest decimal that names the binary64 number nearest to it.
-/

namespace Reckoner

/-- A named number. -/
inductive Constant where
  /-- the base of the natural logarithm -/
  | e
  /-- the ratio of a circle's circumference to its diameter -/
  | pi
  deriving DecidableEq, Repr

namespace Constant

/-- All constants. -/
def all : List Constant := [e, pi]

/-- The name as it is written. -/
def name : Constant → String
  | e => "e"
  | pi => "pi"

/-- The constant with the given name. -/
def ofName? (name : String) : Option Constant := all.find? (·.name = name)

/-- The number that the constant stands for. -/
def value : Constant → Decimal
  | e => ⟨2718281828459045, 15⟩
  | pi => ⟨3141592653589793, 15⟩

end Constant

end Reckoner
