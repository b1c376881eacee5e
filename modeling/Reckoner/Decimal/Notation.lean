import Reckoner.Decimal.Basic

/-!
# Writing decimals

A decimal is written so that both its value and, as far as the notation allows, its scale can be
read back. With `D` for the digits of the unscaled number and `s` for the scale there are four
notations.

* **Scientific**, `d.ddde-x`, when more than `leadingZeroLimit` zeros would have to stand between the
  point and `D`.
* **Shifted**, `De+x`, when more than `trailingZeroLimit` zeros would have to follow `D`.
* **Whole**, `D000`, when `s` is zero or below.
* **Plain**, `d.ddd`, with exactly `s` digits after the point.

A zero is always written `0`.
-/

namespace Reckoner.Decimal

/-- How many zeros the plain notation writes between the point and the digits at most. -/
def leadingZeroLimit : Nat := 5

/-- How many zeros the whole notation writes after the digits at most. -/
def trailingZeroLimit : Nat := 15

/-- The digits of a natural number in base ten, without leading zeros. -/
def digits (n : Nat) : List Char := Nat.toDigits 10 n

/-- The digits followed by `scale` digits less than all of them behind a point, with zeros in front
where there are too few digits. -/
def plainNotation (number : List Char) (scale : Nat) : List Char :=
  let padded := List.replicate (scale + 1 - number.length) '0' ++ number
  padded.take (padded.length - scale) ++ '.' :: padded.drop (padded.length - scale)

/-- The first digit, the others behind a point if there are any, and the exponent, which is
below zero. -/
def scientificNotation (number : List Char) (scale : Nat) : List Char :=
  let fraction := if number.length = 1 then [] else '.' :: number.drop 1
  number.take 1 ++ fraction ++ ['E', '-'] ++ digits (scale + 1 - number.length)

/-- The notation of a number without its sign, for its digits and its scale. -/
def notationOf (number : List Char) : Int → List Char
  | .ofNat 0 => number
  | .ofNat scale =>
    if number.length + leadingZeroLimit < scale then scientificNotation number scale
    else plainNotation number scale
  | .negSucc missing =>
    if trailingZeroLimit < missing + 1 then number ++ ['e', '+'] ++ digits (missing + 1)
    else number ++ List.replicate (missing + 1) '0'

/-- The text of a decimal, as a list of characters. -/
def toChars (d : Decimal) : List Char :=
  if d.IsZero then ['0']
  else
    let magnitude := notationOf (digits d.unscaled.natAbs) d.scale
    if d.IsNegative then '-' :: magnitude else magnitude

/-- The text of a decimal. -/
def toText (d : Decimal) : String := String.ofList d.toChars

instance : ToString Decimal := ⟨toText⟩

end Reckoner.Decimal
