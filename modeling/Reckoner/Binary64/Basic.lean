import Reckoner.Power

/-!
# Finite binary64 numbers

A double-precision number is a sign and a **magnitude**, the low 63 bits of its 64-bit pattern read
as a natural number. Magnitudes are ordered like the absolute values they stand for, and the next
magnitude is the next representable number. Those from `Binary64.overflow` on stand for infinity
and for the results that are no number; they are left out of the type, so a computation that can
reach them gives an `Option Binary64`.

All absolute values are whole multiples of the smallest positive one, `2 ^ (-1074)`; `Binary64.units`
says how many.
-/

namespace Reckoner

/-- The first magnitude that stands for no finite number. -/
def Binary64.overflow : Nat := 2047 * 2 ^ (52 : Nat)

/-- A finite double-precision number. -/
structure Binary64 where
  /-- the sign bit, which zero has too -/
  negative : Bool
  /-- the exponent field and the fraction field of the bit pattern, as one number -/
  magnitude : Nat
  /-- the number is finite -/
  magnitude_lt : magnitude < Binary64.overflow
  deriving DecidableEq, Repr

namespace Binary64

/-- How many units of the smallest positive number make a one. -/
def unitsPerOne : Nat := 2 ^ (1074 : Nat)

/-! ## Values -/

/-- The absolute value of a magnitude, in units of the smallest positive number. Below `2 ^ 52`
numbers are subnormal and a magnitude counts units itself. -/
def unitsOf (magnitude : Nat) : Nat :=
  if magnitude < 2 ^ (52 : Nat) then magnitude
  else (2 ^ (52 : Nat) + magnitude % 2 ^ (52 : Nat)) * 2 ^ (magnitude / 2 ^ (52 : Nat) - 1)

/-- The absolute value in units of the smallest positive number. -/
def units (x : Binary64) : Nat := unitsOf x.magnitude

/-- Positive zero. -/
def zero : Binary64 := ⟨false, 0, by decide⟩

/-- Zero with a sign. -/
def signedZero (negative : Bool) : Binary64 := { zero with negative }

/-- The number is zero, of either sign. -/
abbrev IsZero (x : Binary64) : Prop := x.magnitude = 0

/-- The number is below zero; a zero is not, whatever its sign. -/
abbrev IsNegative (x : Binary64) : Prop := x.negative = true ∧ ¬ x.IsZero

/-- The number has no fractional part. -/
abbrev IsIntegral (x : Binary64) : Prop := x.units % unitsPerOne = 0

/-- The number is a whole number and odd. -/
abbrev IsOdd (x : Binary64) : Prop := x.IsIntegral ∧ x.units / unitsPerOne % 2 = 1

/-! ## Bit patterns -/

/-- The number with the given bit pattern, if that is finite. -/
def ofBits? (bits : UInt64) : Option Binary64 :=
  if finite : bits.toNat % 2 ^ (63 : Nat) < overflow then
    some ⟨2 ^ (63 : Nat) ≤ bits.toNat, bits.toNat % 2 ^ (63 : Nat), finite⟩
  else none

/-- The bit pattern: the sign bit, then the magnitude. -/
def toBits (x : Binary64) : UInt64 :=
  UInt64.ofNat ((if x.negative then 2 ^ (63 : Nat) else 0) + x.magnitude)

end Binary64

end Reckoner
