import Reckoner.FixedPoint
import Reckoner.Binary64.Rounding

/-!
# Elementary functions

Square roots, logarithms and circular functions of binary64 numbers. Each is computed to far more
digits than binary64 holds and then **rounded to nearest once**; there is no result where the
function has no finite value.
-/

namespace Reckoner.Binary64

/-- The logarithm to base two of `unitsPerOne`: units have that many binary digits after the
point. -/
def unitBits : Nat := 1074

/-- The absolute value in ticks of fixed-point arithmetic. -/
def ticks (x : Binary64) : Int := x.units * 2 ^ (FixedPoint.fractionBits - unitBits)

/-- The number nearest to a fixed-point number, with its sign turned round if asked for. -/
def ofTicks? (negate : Bool) (value : Int) : Option Binary64 :=
  nearest? (negate ^^ value < 0) value.natAbs FixedPoint.one.toNat

/-! ## Square roots -/

/-- How many binary digits the square root of a number of units is computed to, beyond the point. -/
def rootBits : Nat := 256

/-- The square root of a number that is not negative. -/
def sqrt? (x : Binary64) : Option Binary64 :=
  if x.IsNegative then none
  else nearest? x.negative (FixedPoint.floorSqrt (x.units * 4 ^ rootBits))
    (2 ^ (unitBits / 2 + rootBits))

/-! ## Logarithms -/

/-- The natural logarithm of a positive number. -/
def ln? (x : Binary64) : Option Binary64 :=
  if x.negative ∨ x.IsZero then none
  else ofTicks? false (FixedPoint.lnOfUnits unitBits x.units)

/-- The logarithm to base ten of a positive number. -/
def log10? (x : Binary64) : Option Binary64 :=
  if x.negative ∨ x.IsZero then none
  else ofTicks? false (FixedPoint.div (FixedPoint.lnOfUnits unitBits x.units) FixedPoint.ln10)

/-! ## Circular functions -/

/-- The sine of an angle in radians. -/
def sin? (x : Binary64) : Option Binary64 :=
  ofTicks? x.negative (FixedPoint.sinCosOfUnits unitBits x.units).1

/-- The cosine of an angle in radians. -/
def cos? (x : Binary64) : Option Binary64 :=
  ofTicks? false (FixedPoint.sinCosOfUnits unitBits x.units).2

/-- The tangent of an angle in radians. -/
def tan? (x : Binary64) : Option Binary64 :=
  let (sin, cos) := FixedPoint.sinCosOfUnits unitBits x.units
  nearest? (x.negative ^^ (sin < 0 : Bool) ^^ (cos < 0 : Bool)) sin.natAbs cos.natAbs

/-- The angle in radians with the given tangent. -/
def arctan? (x : Binary64) : Option Binary64 := ofTicks? x.negative (FixedPoint.arctan x.ticks)

end Reckoner.Binary64
