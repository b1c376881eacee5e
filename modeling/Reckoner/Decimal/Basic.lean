import Reckoner.Power

/-!
# Decimals

A decimal is a whole number together with a scale: `⟨u, s⟩` stands for `u · 10⁻ˢ`. The scale is part
of a decimal, so `1.0` and `1` are two decimals of one value, and each operation below says which
scale its result gets.

* **Equality by value** is `Decimal.sameValue`; plain equality also compares the scales.
* **Sums, differences and remainders** bring both operands to the finer of their two scales
  (`Decimal.unscaledAt`). A sum with zero keeps the other operand and raises its scale by at most
  `Decimal.paddingLimit` digits.
* **Products** add the scales, except that a one that is written out (`1`, `1.0`, `1.00`, …) leaves
  only the significant digits of the other factor (`Decimal.stripZeros`).
-/

namespace Reckoner

/-- An exact decimal number `unscaled · 10 ^ (-scale)`. -/
@[ext] structure Decimal where
  /-- the digits, read as one whole number with the sign of the decimal -/
  unscaled : Int
  /-- how many of the digits stand after the point; negative for trailing zeros left unwritten -/
  scale : Int
  deriving DecidableEq, Repr, Inhabited

namespace Decimal

/-- The scales that can be stored: the signed 64-bit integers. -/
abbrev ScaleInRange (scale : Int) : Prop := -2 ^ (63 : Nat) ≤ scale ∧ scale < 2 ^ (63 : Nat)

/-! ## Sign -/

/-- The decimal is zero, whatever its scale. -/
abbrev IsZero (d : Decimal) : Prop := d.unscaled = 0

/-- The decimal is below zero. -/
abbrev IsNegative (d : Decimal) : Prop := d.unscaled < 0

/-- The decimal is above zero. -/
abbrev IsPositive (d : Decimal) : Prop := 0 < d.unscaled

/-- The opposite number, at the same scale. -/
def neg (d : Decimal) : Decimal := { d with unscaled := -d.unscaled }

/-- The absolute value, at the same scale. -/
def abs (d : Decimal) : Decimal := { d with unscaled := d.unscaled.natAbs }

instance : Neg Decimal := ⟨neg⟩

/-! ## Common scales -/

/-- The finer of the scales of two decimals. -/
def commonScale (a b : Decimal) : Int := max a.scale b.scale

/-- The digits of `d` written out to `scale`, which is meant to be no coarser than the scale of
`d` itself. -/
def unscaledAt (d : Decimal) (scale : Int) : Int := d.unscaled * 10 ^ (scale - d.scale).toNat

/-- The same value with `digits` more zeros written at its end. -/
def pad (d : Decimal) (digits : Nat) : Decimal := ⟨d.unscaled * 10 ^ digits, d.scale + digits⟩

/-- The two decimals denote the same number. -/
def sameValue (a b : Decimal) : Bool :=
  a.unscaledAt (commonScale a b) = b.unscaledAt (commonScale a b)

@[simp] theorem sameValue_self (d : Decimal) : d.sameValue d = true := by
  simp [sameValue]

/-! ## Sums and differences -/

/-- How many zeros a sum with zero writes at most. -/
def paddingLimit : Nat := 15

/-- What is left of `d` when a zero of scale `zeroScale` is added to it: the same value, written
towards the scale of the zero as far as `paddingLimit` allows. -/
def addZero (d : Decimal) (zeroScale : Int) : Decimal :=
  d.pad (min (zeroScale - d.scale).toNat paddingLimit)

/-- The exact sum. Where neither operand is zero it has the finer of their scales. -/
def add (a b : Decimal) : Decimal :=
  if b.IsZero then a.addZero b.scale
  else if a.IsZero then b.addZero a.scale
  else ⟨a.unscaledAt (commonScale a b) + b.unscaledAt (commonScale a b), commonScale a b⟩

/-- The exact difference, at the finer of the two scales. -/
def sub (a b : Decimal) : Decimal :=
  ⟨a.unscaledAt (commonScale a b) - b.unscaledAt (commonScale a b), commonScale a b⟩

instance : Add Decimal := ⟨add⟩

instance : Sub Decimal := ⟨sub⟩

/-! ## Products -/

/-- The same value without trailing zeros: they move from the digits into the scale. Zero is
written as a plain `0`. -/
def stripZeros (d : Decimal) : Decimal :=
  if d.unscaled = 0 then ⟨0, 0⟩
  else if d.unscaled % 10 = 0 then stripZeros ⟨d.unscaled / 10, d.scale - 1⟩
  else d
termination_by d.unscaled.natAbs

/-- The largest scale at which a one counts as written out. -/
def oneScaleLimit : Int := 38

/-- The decimal is the number one, written out to a scale from zero to `oneScaleLimit`. -/
abbrev IsWrittenOne (d : Decimal) : Prop :=
  (0 ≤ d.scale ∧ d.scale ≤ oneScaleLimit) ∧ d.unscaled = 10 ^ d.scale.toNat

/-- The exact product. A written one gives way to the other factor, stripped of its trailing zeros;
otherwise the scales add up. -/
def mul (a b : Decimal) : Decimal :=
  if a.IsWrittenOne then b.stripZeros
  else if b.IsWrittenOne then a.stripZeros
  else ⟨a.unscaled * b.unscaled, a.scale + b.scale⟩

instance : Mul Decimal := ⟨mul⟩

/-! ## Remainders -/

/-- The remainder of truncating division, at the finer of the two scales: it has the sign of the
dividend and is smaller than a nonzero divisor. -/
def rem (a b : Decimal) : Decimal :=
  ⟨(a.unscaledAt (commonScale a b)).tmod (b.unscaledAt (commonScale a b)), commonScale a b⟩

instance : Mod Decimal := ⟨rem⟩

end Decimal

end Reckoner
