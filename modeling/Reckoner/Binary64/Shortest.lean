import Reckoner.Binary64.Rounding
import Reckoner.Decimal.Basic

/-!
# Shortest decimals

`Binary64.toDecimal` names a binary64 number by the decimal with the **fewest digits that round
back** to it, and among those by the one nearest to its exact value; of two equally near ones it
takes the larger magnitude.

The decimals of a given coarseness form a grid, the multiples of `10 ^ e`. A number lies between two
neighbouring points of a grid, and if any point of the grid rounds to the number then one of these
two does. So the search (`searchFrom`) goes from coarse grids to fine ones and stops at the first
whose neighbouring points include one that rounds back (`neighbour?`). It always stops, because every
finite number lies on the grid of `10 ^ (-1074)`.
-/

namespace Reckoner.Binary64

/-- The exponent of the finest grid that is needed: all finite numbers lie on it. -/
def finestGrid : Nat := 1074

/-- The power `10 ^ exponent` as a fraction. -/
def tenToThe (exponent : Int) : Nat × Nat := (10 ^ exponent.toNat, 10 ^ (-exponent).toNat)

/-- The point of the grid of `10 ^ exponent` at a magnitude or next below it, as a multiple of the
grid's spacing. -/
def lowerPoint (magnitude : Nat) (exponent : Int) : Nat :=
  unitsOf magnitude * (tenToThe exponent).2 / (unitsPerOne * (tenToThe exponent).1)

/-- The magnitude is nearer to the point below it than to the point above it. -/
abbrev IsNearLower (magnitude : Nat) (exponent : Int) : Prop :=
  2 * (unitsOf magnitude * (tenToThe exponent).2 % (unitsPerOne * (tenToThe exponent).1)) <
    unitsPerOne * (tenToThe exponent).1

/-- The point of the grid of `10 ^ exponent` rounds to the magnitude. -/
abbrev RoundsBack (magnitude : Nat) (exponent : Int) (point : Nat) : Prop :=
  roundMagnitude (point * (tenToThe exponent).1) (tenToThe exponent).2 = magnitude

/-- The neighbour of a magnitude on the grid of `10 ^ exponent` that rounds to the magnitude. Where
both neighbours do, it is the nearer one, and the upper one when the magnitude stands in the
middle. -/
def neighbour? (magnitude : Nat) (exponent : Int) : Option Nat :=
  let lower := lowerPoint magnitude exponent
  if RoundsBack magnitude exponent lower ∧
      (IsNearLower magnitude exponent ∨ ¬ RoundsBack magnitude exponent (lower + 1)) then some lower
  else if RoundsBack magnitude exponent (lower + 1) then some (lower + 1)
  else none

/-- The digits and the exponent of the first grid on which there are digits to find, from that of
`10 ^ (level - 1074)` on down, or those of the finest grid. -/
def searchFrom (find : Int → Option Nat) (finest : Nat) : Nat → Nat × Int
  | 0 => (finest, -finestGrid)
  | level + 1 =>
    match find (level + 1 - finestGrid) with
    | some digits => (digits, level + 1 - finestGrid)
    | none => searchFrom find finest level

/-- The shortest digits of a magnitude and the exponent of ten that goes with them. The search starts
at a grid as coarse as the number itself. -/
def shortestDigits (magnitude : Nat) : Nat × Int :=
  let whole := unitsOf magnitude / unitsPerOne
  searchFrom (neighbour? magnitude) (unitsOf magnitude * 5 ^ finestGrid)
    ((Nat.toDigits 10 whole).length + finestGrid)

/-- The shortest decimal that rounds back to `x`, with as many digits after the point as it needs and
none where `x` is a whole number. Both zeros give a plain `0`. -/
def toDecimal (x : Binary64) : Decimal :=
  if x.IsZero then ⟨0, 0⟩
  else
    let (digits, exponent) := shortestDigits x.magnitude
    let unscaled : Int := digits * 10 ^ exponent.toNat
    ⟨if x.negative then -unscaled else unscaled, (-exponent).toNat⟩

end Reckoner.Binary64
