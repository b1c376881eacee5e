import Reckoner.Decimal.Basic

/-!
# Division at a fixed scale

A quotient of decimals rarely has a finite decimal expansion. `Decimal.quotient?` keeps as many
digits after the point as the caller asks for, and **rounds to nearest, halves away from zero**:
both magnitudes are brought to one whole fraction, that fraction is rounded once, and the sign is
put back last.

There is no quotient by zero, nor one whose alignment leaves the range of scales or of the powers
of ten that can be written out (`powerLimit`).
-/

namespace Reckoner.Decimal

/-- The whole number nearest to `numerator / denominator`; a half is rounded up. -/
def roundHalfUp (numerator denominator : Nat) : Nat :=
  (2 * numerator + denominator) / (2 * denominator)

/-- Powers of ten are written out for exponents below this one. -/
def powerLimit : Nat := 2 ^ (32 : Nat)

/-- How many places the dividend has to move to the left for the whole quotient to count units of
the wanted scale. -/
def alignment (scale : Int) (dividend divisor : Decimal) : Int :=
  scale + divisor.scale - dividend.scale

/-- The alignment can be computed within the range of scales, and its power of ten written out. -/
abbrev AlignmentInRange (scale : Int) (dividend divisor : Decimal) : Prop :=
  ScaleInRange (scale + divisor.scale) ∧ ScaleInRange (alignment scale dividend divisor) ∧
    (alignment scale dividend divisor).natAbs < powerLimit

/-- The magnitude of the quotient in units of `10 ^ (-scale)`. -/
def quotientMagnitude (shift : Int) (dividend divisor : Nat) : Nat :=
  match shift with
  | .ofNat places => roundHalfUp (dividend * 10 ^ places) divisor
  | .negSucc places => roundHalfUp dividend (divisor * 10 ^ (places + 1))

/-- The quotient with exactly `scale` digits after the point, rounded to nearest with halves away
from zero. -/
def quotient? (scale : Int) (dividend divisor : Decimal) : Option Decimal :=
  if divisor.IsZero ∨ ¬ AlignmentInRange scale dividend divisor then none
  else
    let magnitude := quotientMagnitude (alignment scale dividend divisor)
      dividend.unscaled.natAbs divisor.unscaled.natAbs
    if dividend.IsNegative ↔ divisor.IsNegative then some ⟨magnitude, scale⟩
    else some ⟨-magnitude, scale⟩

end Reckoner.Decimal
