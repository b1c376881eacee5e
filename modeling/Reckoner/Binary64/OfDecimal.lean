import Reckoner.Binary64.Rounding
import Reckoner.Decimal.Basic

/-!
# From decimals to binary64

`Decimal.toBinary64?` gives a binary64 number for a decimal, by the shape of the decimal.

* A decimal of **scale zero** is rounded to nearest.
* Any other is first **shortened**: of the digits in excess of 25, whole blocks of 19 are cut off at
  the end. What is left must have a scale of 32 bits.
* With digits **after the point** left, the shortened decimal is rounded to nearest.
* Otherwise its digits are rounded to nearest and then multiplied by a power of ten, itself
  computed by **repeated squaring** in binary64 (`Binary64.power?`).

There is no result where a number on the way is too large to be finite.
-/

namespace Reckoner

/-! ## Powers in binary64 -/

namespace Binary64

/-- The number one. -/
def one : Binary64 := ⟨false, 1023 * 2 ^ (52 : Nat), by decide⟩

/-- The number ten. -/
def ten : Binary64 := ⟨false, 1026 * 2 ^ (52 : Nat) + 2 ^ (50 : Nat), by decide⟩

/-- The product of `product` and `base ^ exponent` by repeated squaring, where every multiplication is
rounded. -/
def squareAndMultiply? (product base : Binary64) (exponent : Nat) : Option Binary64 := do
  let product ← if exponent % 2 = 1 then product.mul? base else some product
  if exponent / 2 = 0 then some product
  else squareAndMultiply? product (← base.mul? base) (exponent / 2)
termination_by exponent

/-- The power `base ^ exponent` by repeated squaring. -/
def power? (base : Binary64) (exponent : Nat) : Option Binary64 :=
  squareAndMultiply? one base exponent

/-- The number nearest to `± digits · 10 ^ (-scale)`. A fraction that is certain to lie below half of
the smallest positive number is zero without the power of ten being written out. -/
def nearestScaled? (negative : Bool) (digits scale : Nat) : Option Binary64 :=
  if digits.log2 + 1 + 1075 < 3 * scale then some (signedZero negative)
  else nearest? negative digits (10 ^ scale)

end Binary64

/-! ## Shortening -/

namespace Decimal

/-- How many digits are never cut off. -/
def keptDigits : Nat := 25

/-- How many digits are cut off together. -/
def blockDigits : Nat := 19

/-- How many digits are cut off the end of a number of that size. The number of its digits is
estimated from twice the power of two above it. -/
def surplusDigits (unscaled : Nat) : Nat :=
  let estimate := (Nat.toDigits 10 (2 ^ (unscaled.log2 + 2))).length - 1
  (estimate - keptDigits) / blockDigits * blockDigits

/-- The scales that a shortened decimal may have. -/
abbrev ShortScale (scale : Int) : Prop := -2 ^ (31 : Nat) < scale ∧ scale < 2 ^ (31 : Nat)

/-- The binary64 number for `± unscaled · 10 ^ (-scale)` after shortening. -/
def shortened? (negative : Bool) (unscaled : Nat) (scale : Int) : Option Binary64 :=
  if ¬ ShortScale scale then none
  else
    match scale with
    | .ofNat (places + 1) => Binary64.nearestScaled? negative unscaled (places + 1)
    | scale => do
      let digits ← Binary64.nearest? negative unscaled 1
      digits.mul? (← Binary64.ten.power? (-scale).toNat)

/-- The binary64 number for a decimal, if it is finite. -/
def toBinary64? (d : Decimal) : Option Binary64 :=
  let magnitude := d.unscaled.natAbs
  if magnitude = 0 then some Binary64.zero
  else if d.scale = 0 then Binary64.nearest? (d.unscaled < 0) magnitude 1
  else
    let surplus := surplusDigits magnitude
    shortened? (d.unscaled < 0) (magnitude / 10 ^ surplus) (d.scale - surplus)

end Decimal

end Reckoner
