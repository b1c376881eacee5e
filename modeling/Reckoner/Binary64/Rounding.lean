import Reckoner.Binary64.Basic

/-!
# Rounding to binary64

`Binary64.nearest?` turns an exact fraction into the nearest binary64 number, **ties to even**. The
spacing of the representable numbers around a fraction follows from its size alone: below `2 ^ 53`
units they are one unit apart, and from there on the spacing doubles with every power of two. The
fraction is rounded to a whole multiple of that spacing, once.

Because the next magnitude is always the next representable number, rounding up across a power of
two needs no case of its own: the carry moves into the exponent field.
-/

namespace Reckoner.Binary64

/-- The whole number nearest to `numerator / denominator`; of two equally near ones the even
one. -/
def roundHalfEven (numerator denominator : Nat) : Nat :=
  let quotient := numerator / denominator
  let twice := 2 * (numerator % denominator)
  if twice < denominator then quotient
  else if denominator < twice then quotient + 1
  else quotient + quotient % 2

/-- The logarithm to base two of the spacing, in units, of the numbers around a value of that many
whole units. -/
def spacing (units : Nat) : Nat := units.log2 - 52

/-- The magnitude nearest to the fraction `numerator / denominator`, as if magnitudes went on past
every bound. -/
def roundMagnitude (numerator denominator : Nat) : Nat :=
  let scaled := numerator * unitsPerOne
  let step := spacing (scaled / denominator)
  step * 2 ^ (52 : Nat) + roundHalfEven scaled (denominator * 2 ^ step)

/-- The number nearest to `± numerator / denominator`, unless that is too large to be finite. -/
def nearest? (negative : Bool) (numerator denominator : Nat) : Option Binary64 :=
  if finite : roundMagnitude numerator denominator < overflow then
    some ⟨negative, roundMagnitude numerator denominator, finite⟩
  else none

/-- The number nearest to `± digits · 2 ^ exponent`, unless that is too large to be finite. What is
certain to lie beyond the largest or below half of the smallest number is not written out. -/
def nearestShifted? (negative : Bool) (digits : Nat) (exponent : Int) : Option Binary64 :=
  if 1024 < digits.log2 + exponent then none
  else if digits.log2 + exponent < -1076 then some (signedZero negative)
  else nearest? negative (digits * 2 ^ exponent.toNat) (2 ^ (-exponent).toNat)

/-- The rounded product, unless it is too large to be finite. -/
def mul? (x y : Binary64) : Option Binary64 :=
  nearest? (x.negative ^^ y.negative) (x.units * y.units) (unitsPerOne * unitsPerOne)

end Reckoner.Binary64
