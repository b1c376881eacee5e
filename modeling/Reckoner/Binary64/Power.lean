import Reckoner.Binary64.Elementary
import Reckoner.Binary64.OfDecimal

/-!
# Powers

`Binary64.pow?` raises one binary64 number to another and rounds to nearest once.

A power is computed as the exponential of a multiple of a logarithm, which determines the nearest
number unless the exact power lies **half way** between two numbers. Such a power is itself a short
binary fraction, and these powers are computed exactly (`exactPower?`): the base is taken apart into
an odd number and a power of two, as many square roots are taken as the exponent has binary digits
after the point, and the rest of the exponent is a whole number.
-/

namespace Reckoner.Binary64

/-! ## Exact powers -/

/-- How many times two divides a positive number: the bits that change when one is subtracted are
those zeros and the lowest one. -/
def trailingZeros (n : Nat) : Nat := (n ^^^ (n - 1)).log2

/-- A positive number of units as an odd number times a power of two. -/
def oddPart (units : Nat) : Nat × Int :=
  (units / 2 ^ trailingZeros units, trailingZeros units - unitBits)

/-- The square root, taken `times` times, of an odd number times a power of two, as long as each is
again of that form. -/
def exactRoot? : Nat → Nat × Int → Option (Nat × Int)
  | 0, value => some value
  | times + 1, (odd, exponent) =>
    let root := FixedPoint.floorSqrt odd
    if root * root = odd ∧ exponent % 2 = 0 then exactRoot? times (root, exponent / 2) else none

/-- An odd number above one, raised to more than this, is longer than any number half way between two
binary64 numbers. -/
def exactExponentLimit : Nat := 54

/-- The power of a positive base as an odd number times a power of two, where it is short enough to
matter. -/
def exactPower? (baseUnits : Nat) (exponent : Binary64) : Option (Nat × Int) := do
  let (oddExponent, shift) := oddPart exponent.units
  let (odd, twos) ← exactRoot? (-shift).toNat (oddPart baseUnits)
  let times := oddExponent * 2 ^ shift.toNat
  if odd = 1 then some (1, if exponent.negative then -(twos * times) else twos * times)
  else if exponent.negative ∨ exactExponentLimit < times then none
  else some (odd ^ times, twos * times)

/-! ## Powers in general -/

/-- The power of a positive base to a nonzero exponent, with the given sign. -/
def powOfUnits? (negative : Bool) (baseUnits : Nat) (exponent : Binary64) : Option Binary64 :=
  match exactPower? baseUnits exponent with
  | some (odd, twos) => nearestShifted? negative odd twos
  | none =>
    let product := FixedPoint.lnOfUnits unitBits baseUnits * exponent.units / unitsPerOne
    let (mantissa, twos) := FixedPoint.exp (if exponent.negative then -product else product)
    nearestShifted? negative mantissa.toNat (twos - FixedPoint.fractionBits)

/-- The power `base ^ exponent`. Every number to the zeroth is one; there is no negative power of
zero and no fractional power of a negative number. -/
def pow? (base exponent : Binary64) : Option Binary64 :=
  if exponent.IsZero then some one
  else if base.IsZero then
    if exponent.negative then none
    else some (signedZero (base.negative && decide exponent.IsOdd))
  else if base.negative ∧ ¬ exponent.IsIntegral then none
  else powOfUnits? (base.negative && decide exponent.IsOdd) base.units exponent

end Reckoner.Binary64
