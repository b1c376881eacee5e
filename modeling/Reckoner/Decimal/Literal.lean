import Reckoner.Decimal.Basic

/-!
# Reading decimals

The literals are

    [sign] digits ['.' digits] [('e' | 'E') [sign] digits]

where the digits on one side of the point may be missing, underscores may stand anywhere after the
first digit (before it there is none), and the point may even precede the sign. Nothing is
normalised: the **scale** of what is read is the number of digits written after the point less the
exponent, so `1.50` has scale 2 and `1e5` has scale -5. A literal whose scale cannot be stored is
refused.

`Decimal.ofString?` takes the text apart at its exponent mark (`splitExponent`), then at its point
(`splitPoint`), and reads what is left as whole numbers (`wholeNumber?`).
-/

namespace Reckoner.Decimal

/-! ## Whole numbers -/

/-- The number that a row of digits denotes in base ten. -/
def digitsValue (digits : List Char) : Nat :=
  digits.foldl (fun value digit => 10 * value + (digit.toNat - '0'.toNat)) 0

/-- Takes an optional sign off the front of a text: whether it is a minus, and the rest. -/
def splitSign : List Char → Bool × List Char
  | '-' :: rest => (true, rest)
  | '+' :: rest => (false, rest)
  | text => (false, text)

/-- Reads `[sign] digits` as a whole number. -/
def wholeNumber? (text : List Char) : Option Int :=
  let (negative, digits) := splitSign text
  if digits = [] ∨ ¬ digits.all Char.isDigit then none
  else if negative then some (-(digitsValue digits : Int))
  else some (digitsValue digits)

/-- Reads `[sign] digits` where underscores may follow the first digit. -/
def groupedNumber? (text : List Char) : Option Int :=
  if (splitSign text).2.head? = some '_' then none
  else wholeNumber? (text.filter (· ≠ '_'))

/-! ## The parts of a literal -/

/-- The mark between the digits of a literal and its exponent. -/
def isExponentMark (c : Char) : Bool := c = 'e' || c = 'E'

/-- Cuts a literal at its first exponent mark: what precedes the mark, and the exponent behind it,
which is zero where there is no mark. -/
def splitExponent (text : List Char) : Option (List Char × Int) :=
  match text.dropWhile (! isExponentMark ·) with
  | [] => some (text, 0)
  | _ :: exponent => (wholeNumber? exponent).map (text.takeWhile (! isExponentMark ·), ·)

/-- Cuts the digits of a literal at their first point. Without a point nothing follows it. -/
def splitPoint (text : List Char) : List Char × List Char :=
  (text.takeWhile (· ≠ '.'), (text.dropWhile (· ≠ '.')).drop 1)

/-! ## Literals -/

/-- Reads a literal given as a list of characters. -/
def ofChars? (text : List Char) : Option Decimal := do
  let (digits, exponent) ← splitExponent text
  let (whole, fraction) := splitPoint digits
  let unscaled ← groupedNumber? (whole ++ fraction)
  let scale := (fraction.filter (· ≠ '_')).length - exponent
  if ScaleInRange scale then some ⟨unscaled, scale⟩ else none

/-- Reads a literal such as `42`, `3.14`, `.5`, `5.` or `-1.5e-3`. -/
def ofString? (text : String) : Option Decimal := ofChars? text.toList

/-- Reads a literal in which a comma may stand for the point. -/
def ofInput? (text : String) : Option Decimal :=
  ofChars? (text.toList.map fun c => if c = ',' then '.' else c)

end Reckoner.Decimal
