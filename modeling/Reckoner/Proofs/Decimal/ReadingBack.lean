import Reckoner.CommandLine
import Reckoner.Proofs.Decimal.Notation
import Reckoner.Proofs.Decimal.Rational

/-!
# Results as inputs

What is written for a decimal can be given back as an input, and is read as a decimal of the same value
(`Decimal.ofInput?_toText`). The scale is read back with it, unless zeros are written out behind the
digits or there is nothing but a zero (`Decimal.readBack`).

All four notations have one form, `Decimal.Writes`: digits, a point where digits follow it, and an
exponent or none. A text of this form is read at the scale that the digits behind the point give, **less
the exponent** (`Decimal.Writes.ofChars?_signed`), so it remains to see that each notation takes from the
exponent what it moves behind the point.
-/

namespace Reckoner.Decimal

variable {text row whole fraction tail : List Char} {n : ℕ} {scale exponent : ℤ} {negative : Bool}

/-! ## The parts of a text -/

/-- The text with a minus sign in front of it, or without one. -/
def signed (negative : Bool) (text : List Char) : List Char := if negative then '-' :: text else text

/-- Digits with others behind a point, if there are any. -/
def mantissa (whole fraction : List Char) : List Char :=
  if fraction = [] then whole else whole ++ '.' :: fraction

/-- An exponent or nothing. -/
inductive IsTail : List Char → ℤ → Prop
  /-- no exponent -/
  | none : IsTail [] 0
  /-- an exponent for zeros that are not written behind the digits -/
  | shift {row : List Char} (digits : IsRow row) (nonempty : row ≠ []) :
      IsTail ('e' :: '+' :: row) (digitsValue row)
  /-- an exponent for zeros that are not written before the digits -/
  | fraction {row : List Char} (digits : IsRow row) (nonempty : row ≠ []) :
      IsTail ('E' :: '-' :: row) (-digitsValue row)

/-- The text consists of digits, with a point among them or without one, and of an exponent or none, and
it denotes `n` at `scale`. -/
inductive Writes : List Char → ℕ → ℤ → Prop
  /-- the digits in their order, at the scale that the fraction gives less the exponent -/
  | intro {whole fraction tail : List Char} {exponent : ℤ} (wholeDigits : IsRow whole)
      (fractionDigits : IsRow fraction) (nonempty : whole ≠ []) (isTail : IsTail tail exponent) :
      Writes (mantissa whole fraction ++ tail) (digitsValue (whole ++ fraction))
        (fraction.length - exponent)

/-! ## Reading the parts -/

theorem wholeNumber?_signed (hrow : IsRow row) (hne : row ≠ []) :
    wholeNumber? ('-' :: row) = some (-(digitsValue row : ℤ)) ∧
      wholeNumber? ('+' :: row) = some (digitsValue row : ℤ) := by
  have hall : row.all Char.isDigit := List.all_eq_true.mpr hrow
  constructor <;> simp [wholeNumber?, splitSign, hne, hall]

/-- A minus sign makes a row of digits negative. -/
theorem groupedNumber?_signed (hrow : IsRow row) (hne : row ≠ []) (negative : Bool) :
    groupedNumber? (signed negative row) =
      some (if negative then -(digitsValue row : ℤ) else digitsValue row) := by
  cases negative with
  | false => exact groupedNumber?_row hrow hne
  | true =>
    have hfilter : ('-' :: row).filter (· ≠ '_') = '-' :: row := by
      rw [List.filter_cons_of_pos (by decide), filter_underscores_row hrow]
    have hsplit : (splitSign ('-' :: row)).2 = row := rfl
    rw [signed, if_pos rfl, groupedNumber?, hsplit, if_neg (head?_row_ne hrow), hfilter, if_pos rfl]
    exact (wholeNumber?_signed hrow hne).1

/-- The exponent is cut off at its mark. -/
theorem splitExponent_append (hmarks : ∀ c ∈ text, isExponentMark c = false)
    (htail : IsTail tail exponent) : splitExponent (text ++ tail) = some (text, exponent) := by
  have hbefore : ∀ c ∈ text, (! isExponentMark c) := by
    intro c hc
    rw [hmarks c hc]
    rfl
  have hcut {mark : Char} {rest : List Char} {e : ℤ} (hmark : isExponentMark mark)
      (hrest : wholeNumber? rest = some e) :
      splitExponent (text ++ mark :: rest) = some (text, e) := by
    have hstop : ¬ (! isExponentMark mark) := by simp [hmark]
    rw [splitExponent, List.dropWhile_append_of_pos hbefore, List.takeWhile_append_of_pos hbefore,
      List.dropWhile_cons_of_neg (p := (! isExponentMark ·)) hstop,
      List.takeWhile_cons_of_neg (p := (! isExponentMark ·)) hstop, List.append_nil]
    simp only [hrest, Option.map_some]
  cases htail with
  | none => rw [List.append_nil, splitExponent_of_noMark hmarks]
  | shift hrow hne => exact hcut rfl (wholeNumber?_signed hrow hne).2
  | fraction hrow hne => exact hcut rfl (wholeNumber?_signed hrow hne).1

/-- The digits are cut at the point. -/
theorem splitPoint_mantissa (hwhole : ∀ c ∈ whole, c ≠ '.') (fraction : List Char) :
    splitPoint (mantissa whole fraction) = (whole, fraction) := by
  rw [mantissa]
  split
  · next hfraction => rw [splitPoint_of_noPoint hwhole, hfraction]
  · exact splitPoint_point hwhole fraction

theorem signed_mantissa (negative : Bool) (whole fraction : List Char) :
    signed negative (mantissa whole fraction) = mantissa (signed negative whole) fraction := by
  cases negative with
  | false => rfl
  | true =>
    rw [signed, signed, if_pos rfl, if_pos rfl, mantissa, mantissa]
    split <;> rfl

theorem signed_append (negative : Bool) (text tail : List Char) :
    signed negative (text ++ tail) = signed negative text ++ tail := by
  cases negative <;> rfl

theorem mem_mantissa {c : Char} (h : c ∈ mantissa whole fraction) :
    c ∈ whole ∨ c = '.' ∨ c ∈ fraction := by
  rw [mantissa] at h
  split at h
  · exact .inl h
  · simpa using h

theorem mem_signed {c : Char} (h : c ∈ signed negative text) : c = '-' ∨ c ∈ text := by
  cases negative with
  | false => exact .inr h
  | true => exact List.mem_cons.mp h

/-- **Reading** takes the exponent from the scale that the digits behind the point give. -/
theorem Writes.ofChars?_signed (h : Writes text n scale) (hrange : ScaleInRange scale)
    (negative : Bool) :
    ofChars? (signed negative text) = some ⟨if negative then -n else n, scale⟩ := by
  obtain @⟨whole, fraction, tail, exponent, hwhole, hfraction, hne, htail⟩ := h
  have hrow := isRow_append.mpr ⟨hwhole, hfraction⟩
  have hsigned : ∀ c ∈ signed negative whole, c ≠ '.' := by
    intro c hc
    rcases mem_signed hc with rfl | hc
    · decide
    · exact noPoint_row hwhole c hc
  have hmarks : ∀ c ∈ mantissa (signed negative whole) fraction, isExponentMark c = false := by
    intro c hc
    rcases mem_mantissa hc with hc | rfl | hc
    · rcases mem_signed hc with rfl | hc
      · rfl
      · exact isExponentMark_of_isDigit (hwhole c hc)
    · rfl
    · exact isExponentMark_of_isDigit (hfraction c hc)
  have hnumber := groupedNumber?_signed hrow (List.append_ne_nil_of_left_ne_nil hne _) negative
  rw [signed_append] at hnumber
  rw [signed_append, signed_mantissa, ofChars?, splitExponent_append hmarks htail]
  simp only [Option.bind_eq_bind, Option.bind_some, splitPoint_mantissa hsigned, hnumber,
    filter_underscores_row hfraction, if_pos hrange]

/-! ## The four notations -/

/-- Zeros behind a number are a power of ten. -/
theorem digitsValue_append_zeros (row : List Char) (count : ℕ) :
    digitsValue (row ++ List.replicate count '0') = digitsValue row * 10 ^ count := by
  induction count with
  | zero => simp
  | succ count ih =>
    rw [List.replicate_succ', ← List.append_assoc, digitsValue, List.foldl_append, ← digitsValue, ih,
      pow_succ]
    simp only [List.foldl_cons, List.foldl_nil, Nat.sub_self, Nat.add_zero]
    ring

/-- Digits by themselves are written at scale zero. -/
theorem writes_row (hrow : IsRow row) (hne : row ≠ []) : Writes row (digitsValue row) 0 := by
  have hempty : IsRow [] := List.forall_mem_nil _
  have h := Writes.intro hrow hempty hne .none
  simpa [mantissa] using h

/-- The **whole** notation writes the zeros out. -/
theorem writes_whole (n count : ℕ) :
    Writes (digits n ++ List.replicate count '0') (n * 10 ^ count) 0 := by
  have hzeros : IsRow (List.replicate count '0') := by
    intro c hc
    rw [List.eq_of_mem_replicate hc]
    decide
  have h := writes_row (isRow_append.mpr ⟨isRow_digits n, hzeros⟩)
    (List.append_ne_nil_of_left_ne_nil (digits_ne_nil n) _)
  rwa [digitsValue_append_zeros, digitsValue_digits] at h

/-- The **shifted** notation counts the zeros in its exponent. -/
theorem writes_shifted (n count : ℕ) :
    Writes (digits n ++ ['e', '+'] ++ digits count) n (-count) := by
  have h := Writes.intro (isRow_digits n) (List.forall_mem_nil _) (digits_ne_nil n)
    (.shift (isRow_digits count) (digits_ne_nil count))
  simpa [mantissa] using h

/-- The **plain** notation has as many digits behind the point as the scale says. -/
theorem writes_plain (n : ℕ) {scale : ℕ} (hscale : scale ≠ 0) :
    Writes (plainNotation (digits n) scale) n scale := by
  obtain ⟨whole, fraction, htext, hwhole, hfraction, hne, hlength, hvalue⟩ :=
    exists_plainNotation (isRow_digits n) scale
  have hpoint : fraction ≠ [] := by
    rintro rfl
    exact hscale hlength.symm
  have h := Writes.intro hwhole hfraction hne .none
  rw [hvalue, digitsValue_digits, hlength, mantissa, if_neg hpoint, List.append_nil, sub_zero] at h
  rwa [htext]

/-- The **scientific** notation takes the digits that it moves behind the point from the exponent. -/
theorem writes_scientific (n : ℕ) {scale : ℕ} (hscale : (digits n).length ≤ scale) :
    Writes (scientificNotation (digits n) scale) n scale := by
  obtain ⟨first, rest, hdigits⟩ := List.exists_cons_of_ne_nil (digits_ne_nil n)
  have hrow := isRow_digits n
  have hvalue := digitsValue_digits n
  rw [hdigits] at hrow hvalue hscale ⊢
  have hfirst : IsRow [first] := fun c hc => hrow c (List.mem_of_mem_take (i := 1) hc)
  have hrest : IsRow rest := fun c hc => hrow c (List.mem_cons_of_mem _ hc)
  have h := Writes.intro hfirst hrest (List.cons_ne_nil _ _)
    (.fraction (isRow_digits (scale + 1 - (first :: rest).length)) (digits_ne_nil _))
  have htext : scientificNotation (first :: rest) scale =
      mantissa [first] rest ++ 'E' :: '-' :: digits (scale + 1 - (first :: rest).length) := by
    rcases rest with _ | ⟨second, rest⟩
    · rfl
    · simp [scientificNotation, mantissa]
  have hplaces : (rest.length : ℤ) - -(scale + 1 - (first :: rest).length : ℕ) = scale := by
    rw [List.length_cons] at hscale ⊢
    omega
  rw [digitsValue_digits, hplaces, List.singleton_append, hvalue] at h
  rwa [htext]

/-! ## All decimals -/

/-- The scale is read back, because no zeros are written out for it. -/
abbrev KeepsScale (scale : ℤ) : Prop := 0 ≤ scale ∨ scale < -trailingZeroLimit

/-- The notation of a number writes its digits at the scale, or the zeros with them. -/
theorem writes_notationOf (n : ℕ) (scale : ℤ) :
    Writes (notationOf (digits n) scale)
      (if KeepsScale scale then n else n * 10 ^ (-scale).toNat)
      (if KeepsScale scale then scale else 0) := by
  rcases scale with (_ | scale) | missing
  · have hkept : KeepsScale (.ofNat 0) := .inl le_rfl
    have h := writes_row (isRow_digits n) (digits_ne_nil n)
    rw [digitsValue_digits] at h
    rw [if_pos hkept, if_pos hkept]
    exact h
  · have hkept : KeepsScale (.ofNat (scale + 1)) := .inl (Int.natCast_nonneg _)
    have htext : notationOf (digits n) (.ofNat (scale + 1)) =
        if (digits n).length + leadingZeroLimit < scale + 1 then
          scientificNotation (digits n) (scale + 1)
        else plainNotation (digits n) (scale + 1) := rfl
    rw [if_pos hkept, if_pos hkept, htext]
    split_ifs with hlong
    · exact writes_scientific n (by omega)
    · exact writes_plain n (Nat.succ_ne_zero scale)
  · have hkept : KeepsScale (.negSucc missing) ↔ trailingZeroLimit < missing + 1 := by
      rw [KeepsScale]
      omega
    have htext : notationOf (digits n) (.negSucc missing) =
        if trailingZeroLimit < missing + 1 then digits n ++ ['e', '+'] ++ digits (missing + 1)
        else digits n ++ List.replicate (missing + 1) '0' := rfl
    simp only [htext, hkept]
    split_ifs
    · exact writes_shifted n (missing + 1)
    · exact writes_whole n (missing + 1)

/-- The decimal that is read where a decimal is written: zeros that are written out behind its digits
are among the digits then, and a zero has no scale. -/
def readBack (d : Decimal) : Decimal :=
  if d.IsZero then ⟨0, 0⟩
  else if KeepsScale d.scale then d
  else ⟨d.unscaled * 10 ^ (-d.scale).toNat, 0⟩

/-- A decimal read back has the same value. -/
theorem toRat_readBack (d : Decimal) : d.readBack.toRat = d.toRat := by
  rw [readBack]
  split_ifs with hzero hkept
  · rw [toRat_of_isZero hzero]
    simp [toRat]
  · rfl
  · have hscale : ((-d.scale).toNat : ℤ) = -d.scale := by omega
    rw [toRat, toRat, neg_zero, zpow_zero, mul_one, ← hscale, zpow_natCast, Int.toNat_natCast]
    push_cast
    rfl

/-- No comma is written. -/
theorem Writes.ne_comma (h : Writes text n scale) (negative : Bool) :
    ∀ c ∈ signed negative text, c ≠ ',' := by
  obtain @⟨whole, fraction, tail, exponent, hwhole, hfraction, -, htail⟩ := h
  have hdigits {row : List Char} (hrow : IsRow row) : ∀ c ∈ row, c ≠ ',' :=
    fun c hc => ne_of_isDigit (hrow c hc) rfl
  have htail' : ∀ c ∈ tail, c ≠ ',' := by
    cases htail with
    | none => exact List.forall_mem_nil _
    | shift hrow _ =>
      exact List.forall_mem_cons.mpr ⟨by decide, List.forall_mem_cons.mpr ⟨by decide, hdigits hrow⟩⟩
    | fraction hrow _ =>
      exact List.forall_mem_cons.mpr ⟨by decide, List.forall_mem_cons.mpr ⟨by decide, hdigits hrow⟩⟩
  intro c hc
  rcases mem_signed hc with rfl | hc
  · decide
  · rcases List.mem_append.mp hc with hc | hc
    · rcases mem_mantissa hc with hc | rfl | hc
      · exact hdigits hwhole c hc
      · decide
      · exact hdigits hfraction c hc
    · exact htail' c hc

/-- A text without commas is an input as it is. -/
theorem ofInput?_eq_ofChars? (h : ∀ c ∈ text, c ≠ ',') :
    ofInput? (String.ofList text) = ofChars? text := by
  rw [ofInput?, String.toList_ofList]
  exact congrArg ofChars? ((List.map_congr_left fun c hc => if_neg (h c hc)).trans text.map_id)

/-- The sign of a decimal goes with its digits, also where zeros are written behind them. -/
theorem signed_natAbs (d : Decimal) (factor : ℕ) :
    (if decide d.IsNegative then -((d.unscaled.natAbs * factor : ℕ) : ℤ)
      else (d.unscaled.natAbs * factor : ℕ)) = d.unscaled * factor := by
  by_cases hnegative : d.IsNegative
  · have habs : (d.unscaled.natAbs : ℤ) = -d.unscaled := by omega
    rw [if_pos (decide_eq_true hnegative), Nat.cast_mul, habs, neg_mul, neg_neg]
  · have habs : (d.unscaled.natAbs : ℤ) = d.unscaled := by omega
    rw [if_neg (by simpa using hnegative), Nat.cast_mul, habs]

/-- A decimal that is not zero is written as its sign and a notation of its digits. -/
theorem toChars_of_not_isZero {d : Decimal} (h : ¬ d.IsZero) :
    d.toChars = signed (decide d.IsNegative) (notationOf (digits d.unscaled.natAbs) d.scale) := by
  simp only [toChars, if_neg h, signed, decide_eq_true_eq]

/-- **Results are inputs**: the text of a decimal whose scale can be stored is read as an input, by itself
and on the command line. What is read is the decimal, scale included, unless it is a zero or zeros are
written out for its scale; and it always has the same value. -/
theorem ofInput?_toText (d : Decimal) (hrange : ScaleInRange d.scale) :
    ofInput? d.toText = some d.readBack ∧ CommandLine.readValues [d.toText] = .ok [d.readBack] ∧
      d.readBack.toRat = d.toRat := by
  have hread : ofInput? d.toText = some d.readBack := by
    by_cases hzero : d.IsZero
    · rw [toText, toChars, readBack, if_pos hzero, if_pos hzero]
      decide
    · have hwrites := writes_notationOf d.unscaled.natAbs d.scale
      have hscale : ScaleInRange (if KeepsScale d.scale then d.scale else 0) := by
        split_ifs
        · exact hrange
        · decide
      rw [toText, toChars_of_not_isZero hzero, ofInput?_eq_ofChars? (hwrites.ne_comma _),
        hwrites.ofChars?_signed hscale, readBack, if_neg hzero]
      by_cases hkept : KeepsScale d.scale
      · have hnumber := d.signed_natAbs 1
        rw [Nat.mul_one, Nat.cast_one, mul_one] at hnumber
        simp only [if_pos hkept, hnumber]
      · have hnumber := d.signed_natAbs (10 ^ (-d.scale).toNat)
        simp only [if_neg hkept, hnumber]
        push_cast
        rfl
  refine ⟨hread, ?_, d.toRat_readBack⟩
  rw [CommandLine.readValues, List.mapM_cons, List.mapM_nil, hread]
  rfl

/-- At the ends of the range of scales both exponents have nineteen digits, and a thousand is written out
with its zeros. -/
theorem ofInput?_toText_limits :
    ofInput? (toText ⟨-25, 2 ^ 63 - 1⟩) = some ⟨-25, 2 ^ 63 - 1⟩ ∧
      ofInput? (toText ⟨7, -2 ^ 63⟩) = some ⟨7, -2 ^ 63⟩ ∧
      ofInput? (toText ⟨-1, -3⟩) = some ⟨-1000, 0⟩ := by
  refine ⟨(ofInput?_toText ⟨-25, 2 ^ 63 - 1⟩ (by decide)).1,
    (ofInput?_toText ⟨7, -2 ^ 63⟩ (by decide)).1, (ofInput?_toText ⟨-1, -3⟩ (by decide)).1⟩

end Reckoner.Decimal
