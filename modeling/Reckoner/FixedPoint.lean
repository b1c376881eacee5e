import Reckoner.Power

/-!
# Fixed-point arithmetic

Real numbers approximated by whole multiples of one tick, `2 ^ (-1280)`. The tick is far below the
smallest binary64 number, so that even the smallest results keep some two hundred correct bits, and
the elementary functions of binary64 can be computed here once and rounded once.

Series are summed from their last term to their first (`polynomial`, `nested`), each with as many terms
as its argument's range needs for the rest to be less than a tick.
-/

namespace Reckoner.FixedPoint

/-- How many binary digits stand after the point. -/
def fractionBits : Nat := 1280

/-- The number one, in ticks. -/
def one : Int := 2 ^ fractionBits

/-- The product, rounded down to a tick. -/
def mul (x y : Int) : Int := x * y / one

/-- The quotient, rounded down to a tick. -/
def div (x y : Int) : Int := x * one / y

/-! ## Square roots -/

/-- The whole part of the square root of a number below `4 ^ pairs`, a binary digit of the root for
every two of the number. -/
def floorSqrtFrom : Nat → Nat → Nat
  | 0, _ => 0
  | pairs + 1, n =>
    let root := 2 * floorSqrtFrom pairs (n / 4)
    if (root + 1) * (root + 1) ≤ n then root + 1 else root

/-- The whole part of the square root. -/
def floorSqrt (n : Nat) : Nat := floorSqrtFrom (n.log2 / 2 + 1) n

/-- The square root of a number that is not negative, rounded down to a tick. -/
def sqrt (x : Int) : Int := floorSqrt (x * one).toNat

/-! ## Series -/

/-- The sum of `coefficient k · x ^ k` over the first `terms` indices. -/
def polynomial (terms : Nat) (coefficient : Nat → Int) (x : Int) : Int :=
  (List.range terms).foldr (fun k rest => coefficient k + mul x rest) 0

/-- The sum `1 + x / d₀ · (1 + x / d₁ · (1 + …))` with `terms` divisors. -/
def nested (terms : Nat) (divisor : Nat → Nat) (x : Int) : Int :=
  (List.range terms).foldr (fun k rest => one + mul x rest / divisor k) one

/-- The sum of `x ^ k / (2 · k + 1)`, which the arctangent and the logarithm have in common. -/
def oddReciprocals (terms : Nat) (x : Int) : Int :=
  polynomial terms (fun k => one / (2 * k + 1)) x

/-! ## Logarithm and exponential -/

/-- The logarithm of a number from one to two, through the series of the inverse hyperbolic
tangent. -/
def lnMantissa (mantissa : Int) : Int :=
  let z := div (mantissa - one) (mantissa + one)
  2 * mul z (oddReciprocals 420 (mul z z))

/-- The logarithm of two. -/
def ln2 : Int := lnMantissa (2 * one)

/-- The logarithm of ten. -/
def ln10 : Int := 3 * ln2 + lnMantissa (one + one / 4)

/-- The logarithm of a positive number of units of `2 ^ (-unitBits)`. -/
def lnOfUnits (unitBits units : Nat) : Int :=
  let mantissa := units * one / 2 ^ units.log2
  (units.log2 - unitBits : Int) * ln2 + lnMantissa mantissa

/-- The exponential of a number from zero to the logarithm of two. -/
def expFraction (x : Int) : Int := nested 256 (· + 1) x

/-- The exponential as a number from one to two and the power of two it is to be multiplied by. -/
def exp (x : Int) : Int × Int := (expFraction (x % ln2), x / ln2)

/-! ## Circular functions -/

/-- The arctangent of `1 / n`, in multiples of `2 ^ (-bits)`. -/
def arctanReciprocal (bits n : Nat) : Int :=
  let unit : Int := 2 ^ bits
  (List.range (bits / 4)).foldr (fun (k : Nat) rest => unit / (2 * k + 1) - rest / (n * n)) 0 / n

/-- How many binary digits after the point a right angle is known to: enough for the angle that is
left after the largest binary64 number of radians has been reduced by right angles. -/
def angleBits : Nat := 2432

/-- A right angle in multiples of `2 ^ (-angleBits)`, by Machin's formula. -/
def wideRightAngle : Int := 8 * arctanReciprocal angleBits 5 - 2 * arctanReciprocal angleBits 239

/-- A right angle. -/
def rightAngle : Int := wideRightAngle / 2 ^ (angleBits - fractionBits)

/-- The sine of an angle of at most half a right angle. -/
def sinReduced (x : Int) : Int :=
  mul x (nested 128 (fun k => (2 * k + 2) * (2 * k + 3)) (-mul x x))

/-- The cosine of an angle of at most half a right angle. -/
def cosReduced (x : Int) : Int :=
  nested 128 (fun k => (2 * k + 1) * (2 * k + 2)) (-mul x x)

/-- The sine and the cosine of an angle given as a number of units of `2 ^ (-unitBits)`. The angle is
reduced by the nearest whole number of right angles, which turns the two functions into one
another. -/
def sinCosOfUnits (unitBits units : Nat) : Int × Int :=
  let angle : Int := units * 2 ^ (angleBits - unitBits)
  let turns := (2 * angle + wideRightAngle) / (2 * wideRightAngle)
  let reduced := (angle - turns * wideRightAngle) / 2 ^ (angleBits - fractionBits)
  let sin := sinReduced reduced
  let cos := cosReduced reduced
  match (turns % 4).toNat with
  | 0 => (sin, cos)
  | 1 => (cos, -sin)
  | 2 => (-sin, -cos)
  | _ => (-cos, sin)

/-- The tangent of half the angle whose tangent is given. -/
def halfAngle (tangent : Int) : Int := div tangent (one + sqrt (one + mul tangent tangent))

/-- The arctangent of a number from zero to one: the angle is halved twice before its series is
summed. -/
def arctanReduced (x : Int) : Int :=
  let quarter := halfAngle (halfAngle x)
  4 * mul quarter (oddReciprocals 300 (-mul quarter quarter))

/-- The arctangent of a number that is not negative. -/
def arctan (x : Int) : Int :=
  if x ≤ one then arctanReduced x else rightAngle - arctanReduced (div one x)

end Reckoner.FixedPoint
