import Mathlib.Algebra.Group.Int.Defs
import Mathlib.Algebra.Group.Nat.Defs
import Mathlib.Data.List.TakeWhile
import Reckoner.Decimal.Literal
import Reckoner.Decimal.Notation

/-!
# Reading what is written

A decimal without a sign is written in digits, with a point among them or without one, as long as its
notation is **plain**; such a text reads back as the decimal, scale included, and a zero as a zero
(`Decimal.ofChars?_toChars`). The one exception among the decimals that a text in digits denotes is the
scientific notation (`Decimal.IsScientific`), which has an exponent.

* `ofChars?_row` and `ofChars?_point` read rows of digits, without and with a point, and
  `ofChars?_digits` says what that is in terms of the text (`Decimal.inDigits`).
* `nonnegative_of_ofChars?` says what such texts denote: neither the number nor the scale is negative.
* `exists_scientific` and `exists_exponentMark_iff` tell the two notations apart.
-/

namespace Reckoner.Decimal

/-- All characters are digits. -/
abbrev IsRow (text : List Char) : Prop := ∀ c ∈ text, c.isDigit

variable {text row whole fraction : List Char}

theorem isRow_append : IsRow (whole ++ fraction) ↔ IsRow whole ∧ IsRow fraction :=
  List.forall_mem_append

/-! ## Rows of digits -/

theorem ne_of_isDigit {c : Char} (hc : c.isDigit) {d : Char} (hd : d.isDigit = false) : c ≠ d := by
  rintro rfl
  rw [hd] at hc
  cases hc

theorem isExponentMark_of_isDigit {c : Char} (hc : c.isDigit) : isExponentMark c = false := by
  have he : c ≠ 'e' := ne_of_isDigit hc rfl
  have hE : c ≠ 'E' := ne_of_isDigit hc rfl
  simp [isExponentMark, he, hE]

/-- Digits and points show no exponent. -/
theorem noMark_of_digits (h : ∀ c ∈ text, c.isDigit ∨ c = '.') :
    ∀ c ∈ text, isExponentMark c = false := by
  intro c hc
  rcases h c hc with hdigit | rfl
  · exact isExponentMark_of_isDigit hdigit
  · rfl

theorem digits_point (hwhole : IsRow whole) (hfraction : IsRow fraction) :
    ∀ c ∈ whole ++ '.' :: fraction, c.isDigit ∨ c = '.' := by
  intro c hc
  rcases List.mem_append.mp hc with hc | hc
  · exact .inl (hwhole c hc)
  · rcases List.mem_cons.mp hc with rfl | hc
    · exact .inr rfl
    · exact .inl (hfraction c hc)

/-- Digits are not taken for a sign. -/
theorem splitSign_row (hrow : IsRow row) : splitSign row = (false, row) := by
  rcases row with _ | ⟨c, rest⟩
  · rfl
  · have hc := hrow c (List.mem_cons_self ..)
    have hminus : c ≠ '-' := ne_of_isDigit hc rfl
    have hplus : c ≠ '+' := ne_of_isDigit hc rfl
    unfold splitSign
    split
    · next h => exact absurd (List.cons.inj h).1 hminus
    · next h => exact absurd (List.cons.inj h).1 hplus
    · rfl

theorem filter_underscores_row (hrow : IsRow row) : row.filter (· ≠ '_') = row := by
  rw [List.filter_eq_self]
  intro c hc
  simpa using ne_of_isDigit (hrow c hc) rfl

/-- Digits do not begin with an underscore. -/
theorem head?_row_ne (hrow : IsRow row) : row.head? ≠ some '_' := by
  intro h
  obtain ⟨rest, rfl⟩ := List.head?_eq_some_iff.mp h
  exact absurd (hrow '_' (List.mem_cons_self ..)) Bool.false_ne_true

/-- Digits are read as the number that they denote. -/
theorem groupedNumber?_row (hrow : IsRow row) (hne : row ≠ []) :
    groupedNumber? row = some (digitsValue row : Int) := by
  have hall : row.all Char.isDigit := List.all_eq_true.mpr hrow
  rw [groupedNumber?, splitSign_row hrow, if_neg (head?_row_ne hrow), filter_underscores_row hrow,
    wholeNumber?, splitSign_row hrow]
  simp [hne, hall]

/-! ## Literals without sign and exponent -/

theorem splitExponent_of_noMark (h : ∀ c ∈ text, isExponentMark c = false) :
    splitExponent text = some (text, 0) := by
  have hnil : text.dropWhile (! isExponentMark ·) = [] := by
    rw [List.dropWhile_eq_nil_iff]
    intro c hc
    rw [h c hc]
    rfl
  rw [splitExponent, hnil]

theorem noPoint_row (hrow : IsRow row) : ∀ c ∈ row, c ≠ '.' :=
  fun c hc => ne_of_isDigit (hrow c hc) rfl

/-- Without a point nothing is cut off. -/
theorem splitPoint_of_noPoint (h : ∀ c ∈ text, c ≠ '.') : splitPoint text = (text, []) := by
  have hall : ∀ c ∈ text, decide (c ≠ '.') := fun c hc => decide_eq_true (h c hc)
  rw [splitPoint, List.takeWhile_eq_self_iff.mpr hall, List.dropWhile_eq_nil_iff.mpr hall]
  rfl

/-- The first point is where the digits are cut. -/
theorem splitPoint_point (h : ∀ c ∈ whole, c ≠ '.') (fraction : List Char) :
    splitPoint (whole ++ '.' :: fraction) = (whole, fraction) := by
  have hall : ∀ c ∈ whole, decide (c ≠ '.') := fun c hc => decide_eq_true (h c hc)
  rw [splitPoint, List.takeWhile_append_of_pos hall, List.dropWhile_append_of_pos hall]
  simp

/-- A row of digits is read at scale zero. -/
theorem ofChars?_row (hrow : IsRow row) (hne : row ≠ []) :
    ofChars? row = some ⟨digitsValue row, 0⟩ := by
  have hmarks := noMark_of_digits fun c hc => .inl (hrow c hc)
  simp [ofChars?, splitExponent_of_noMark hmarks, splitPoint_of_noPoint (noPoint_row hrow),
    groupedNumber?_row hrow hne, ScaleInRange]

theorem scaleInRange_of_nonneg {scale : Int} (hnonneg : 0 ≤ scale) (hlt : scale < 2 ^ 63) :
    ScaleInRange scale :=
  ⟨Int.le_trans (by decide) hnonneg, hlt⟩

/-- Digits with a point among them are read at the scale that the digits behind it give. -/
theorem ofChars?_point (hwhole : IsRow whole) (hfraction : IsRow fraction)
    (hne : whole ++ fraction ≠ []) (hrange : (fraction.length : Int) < 2 ^ 63) :
    ofChars? (whole ++ '.' :: fraction) = some ⟨digitsValue (whole ++ fraction), fraction.length⟩ := by
  have hmarks := noMark_of_digits (digits_point hwhole hfraction)
  have hscale : ScaleInRange fraction.length :=
    scaleInRange_of_nonneg (Int.natCast_nonneg _) hrange
  simp only [ofChars?, splitExponent_of_noMark hmarks, splitPoint_point (noPoint_row hwhole),
    groupedNumber?_row (isRow_append.mpr ⟨hwhole, hfraction⟩) hne, Option.bind_eq_bind,
    Option.bind_some, filter_underscores_row hfraction, Int.sub_zero, if_pos hscale]

/-! ## Texts with at most one point -/

/-- A text of digits with at most one point is a row of digits, or two rows with a point between
them. -/
theorem row_or_point (htext : ∀ c ∈ text, c.isDigit ∨ c = '.') (hpoints : text.count '.' ≤ 1) :
    IsRow text ∨ ∃ whole fraction, text = whole ++ '.' :: fraction ∧ IsRow whole ∧ IsRow fraction := by
  by_cases hpoint : '.' ∈ text
  · obtain ⟨whole, fraction, rfl⟩ := List.append_of_mem hpoint
    rw [List.count_append, List.count_cons_self] at hpoints
    have hwhole : '.' ∉ whole := List.count_eq_zero.mp (by omega)
    have hfraction : '.' ∉ fraction := List.count_eq_zero.mp (by omega)
    refine .inr ⟨whole, fraction, rfl, fun c hc => ?_, fun c hc => ?_⟩
    · exact (htext c (by simp [hc])).resolve_right fun h => hwhole (h ▸ hc)
    · exact (htext c (by simp [hc])).resolve_right fun h => hfraction (h ▸ hc)
  · exact .inl fun c hc => (htext c hc).resolve_right fun h => hpoint (h ▸ hc)

theorem digitsValue_eq_ofDigitChars (row : List Char) : digitsValue row = Nat.ofDigitChars 10 row 0 :=
  Nat.ofDigitChars_eq_foldl.symm

/-- The decimal that a text writes in digits: the digits in their order, at the scale that the digits
behind the point give. -/
def inDigits (text : List Char) : Decimal :=
  ⟨Nat.ofDigitChars 10 (text.filter Char.isDigit) 0,
    (text.dropWhile (· ≠ '.')).countP Char.isDigit⟩

/-- **A text of digits with at most one point** is read as the decimal that it writes. -/
theorem ofChars?_digits (htext : ∀ c ∈ text, c.isDigit ∨ c = '.') (hdigit : ∃ c ∈ text, c.isDigit)
    (hpoints : text.count '.' ≤ 1) (hlength : text.length < 2 ^ 63) :
    ofChars? text = some (inDigits text) := by
  obtain ⟨c, hc, hdigit⟩ := hdigit
  have hkeep {row : List Char} (hrow : IsRow row) : row.filter Char.isDigit = row :=
    List.filter_eq_self.mpr hrow
  have hdrop {row : List Char} (hrow : IsRow row) : ∀ c ∈ row, decide (c ≠ '.') := by
    intro c hc
    simpa using ne_of_isDigit (hrow c hc) rfl
  rcases row_or_point htext hpoints with hrow | ⟨whole, fraction, rfl, hwhole, hfraction⟩
  · rw [ofChars?_row hrow (List.ne_nil_of_mem hc), inDigits, hkeep hrow, digitsValue_eq_ofDigitChars,
      List.dropWhile_eq_nil_iff.mpr (hdrop hrow)]
    rfl
  · have hdigits : (whole ++ '.' :: fraction).filter Char.isDigit = whole ++ fraction := by
      rw [List.filter_append, List.filter_cons_of_neg Bool.false_ne_true, hkeep hwhole,
        hkeep hfraction]
    have hcount : (('.' :: fraction).countP Char.isDigit) = fraction.length := by
      rw [List.countP_cons_of_neg Bool.false_ne_true, List.countP_eq_length.mpr hfraction]
    have hne : whole ++ fraction ≠ [] := by
      rw [← hdigits]
      exact List.ne_nil_of_mem (List.mem_filter.mpr ⟨hc, hdigit⟩)
    rw [List.length_append, List.length_cons] at hlength
    rw [ofChars?_point hwhole hfraction hne (by omega), inDigits, hdigits, digitsValue_eq_ofDigitChars,
      List.dropWhile_append_of_pos (hdrop hwhole), List.dropWhile_cons_of_neg (by simp), hcount]

/-! ## What texts in digits denote -/

theorem nonneg_of_wholeNumber? {n : Int} (h : wholeNumber? text = some n) (hminus : '-' ∉ text) :
    0 ≤ n := by
  have hsign : (splitSign text).1 = false := by
    unfold splitSign
    split
    · exact absurd (List.mem_cons_self ..) hminus
    · rfl
    · rfl
  simp only [wholeNumber?, hsign] at h
  split at h
  · cases h
  · cases h
    exact Int.natCast_nonneg _

/-- A text of digits and points denotes a number that is not negative, and neither is its scale. -/
theorem nonnegative_of_ofChars? {d : Decimal} (htext : ∀ c ∈ text, c.isDigit ∨ c = '.')
    (h : ofChars? text = some d) : 0 ≤ d.unscaled ∧ 0 ≤ d.scale ∧ d.scale < 2 ^ 63 := by
  have hmarks := noMark_of_digits htext
  have hminus : '-' ∉ ((splitPoint text).1 ++ (splitPoint text).2).filter (· ≠ '_') := by
    intro hmem
    have htake := (List.takeWhile_prefix (fun c : Char => decide (c ≠ '.')) (l := text)).subset
    have hdrop := ((List.drop_suffix 1 _).trans
      (List.dropWhile_suffix (fun c : Char => decide (c ≠ '.')) (l := text))).subset
    have hin : '-' ∈ text := by
      rcases List.mem_append.mp (List.mem_filter.mp hmem).1 with hwhole | hfraction
      · exact htake hwhole
      · exact hdrop hfraction
    rcases htext '-' hin with hdigit | hpoint
    · exact absurd hdigit Bool.false_ne_true
    · exact absurd hpoint (by decide)
  simp only [ofChars?, splitExponent_of_noMark hmarks, Option.bind_eq_bind, Option.bind_some,
    Option.bind_eq_some_iff] at h
  obtain ⟨unscaled, hunscaled, h⟩ := h
  split at h
  · next hrange =>
    cases h
    refine ⟨?_, ?_, hrange.2⟩
    · rw [groupedNumber?] at hunscaled
      split at hunscaled
      · cases hunscaled
      · exact nonneg_of_wholeNumber? hunscaled hminus
    · rw [Int.sub_zero]
      exact Int.natCast_nonneg _
  · cases h

/-! ## Digits of natural numbers -/

theorem isRow_digits (n : Nat) : IsRow (digits n) :=
  fun _ hc => Nat.isDigit_of_mem_toDigits (by decide) (by decide) hc

theorem digits_ne_nil (n : Nat) : digits n ≠ [] := Nat.toDigits_ne_nil

@[simp] theorem digitsValue_digits (n : Nat) : digitsValue (digits n) = n := by
  rw [digitsValue_eq_ofDigitChars, digits, Nat.ofDigitChars_ten_toDigits]

/-- Leading zeros denote nothing. -/
theorem digitsValue_zeros (count : Nat) (row : List Char) :
    digitsValue (List.replicate count '0' ++ row) = digitsValue row := by
  induction count with
  | zero => rfl
  | succ count ih =>
    rw [List.replicate_succ, List.cons_append]
    exact ih

/-! ## Plain and scientific notation -/

/-- A text in digits, with a point behind some of them or without one. -/
inductive IsPlain : List Char → Prop where
  /-- digits only -/
  | row {row : List Char} (digits : IsRow row) (nonempty : row ≠ []) : IsPlain row
  /-- a point behind at least one digit -/
  | point {whole fraction : List Char} (wholeDigits : IsRow whole)
      (fractionDigits : IsRow fraction) (nonempty : whole ≠ []) :
      IsPlain (whole ++ '.' :: fraction)

theorem IsPlain.digits_or_point (h : IsPlain text) : ∀ c ∈ text, c.isDigit ∨ c = '.' := by
  cases h with
  | row hrow hne => exact fun c hc => .inl (hrow c hc)
  | point hwhole hfraction hne => exact digits_point hwhole hfraction

theorem IsPlain.ne_nil (h : IsPlain text) : text ≠ [] := by
  cases h with
  | row hrow hne => exact hne
  | point hwhole hfraction hne => exact List.append_ne_nil_of_left_ne_nil hne _

/-- The decimal is written with an exponent because too many zeros would follow the point. -/
abbrev IsScientific (d : Decimal) : Prop :=
  d.unscaled ≠ 0 ∧ (((digits d.unscaled.natAbs).length + leadingZeroLimit : Nat) : Int) < d.scale

variable {d : Decimal}

/-- The plain notation with a point is digits around a point, at the scale that is written. -/
theorem exists_plainNotation {number : List Char} (hnumber : IsRow number) (scale : Nat) :
    ∃ whole fraction, plainNotation number scale = whole ++ '.' :: fraction ∧ IsRow whole ∧
      IsRow fraction ∧ whole ≠ [] ∧ fraction.length = scale ∧
      digitsValue (whole ++ fraction) = digitsValue number := by
  have hpadded : IsRow (List.replicate (scale + 1 - number.length) '0' ++ number) := by
    refine isRow_append.mpr ⟨fun c hc => ?_, hnumber⟩
    rw [List.eq_of_mem_replicate hc]
    decide
  have hlength : scale < (List.replicate (scale + 1 - number.length) '0' ++ number).length := by
    rw [List.length_append, List.length_replicate]
    omega
  have hvalue := digitsValue_zeros (scale + 1 - number.length) number
  -- the zeros make room for the digits behind the point and one in front of it
  rw [plainNotation]
  generalize List.replicate (scale + 1 - number.length) '0' ++ number = padded at *
  have hsplit := List.take_append_drop (padded.length - scale) padded
  refine ⟨padded.take (padded.length - scale), padded.drop (padded.length - scale), rfl,
    fun c hc => hpadded c (List.mem_of_mem_take hc), fun c hc => hpadded c (List.mem_of_mem_drop hc),
    ?_, ?_, ?_⟩
  · rw [Ne, ← List.length_eq_zero_iff, List.length_take]
    omega
  · rw [List.length_drop]
    omega
  · rw [hsplit, hvalue]

/-- A literal that is read back from what is written for it: a zero loses its scale. -/
def rewritten (d : Decimal) : Decimal := if d.IsZero then ⟨0, 0⟩ else d

theorem sameValue_rewritten (d : Decimal) : d.rewritten.sameValue d := by
  rw [rewritten]
  split
  · next hzero => simp [sameValue, unscaledAt, show d.unscaled = 0 from hzero]
  · exact sameValue_self d

/-- A positive number is written without a sign. -/
theorem toChars_of_pos {n : Nat} (hn : n ≠ 0) (scale : Int) :
    toChars ⟨n, scale⟩ = notationOf (digits n) scale := by
  have hzero : ¬ (n : Int) = 0 := by omega
  have hnegative : ¬ (n : Int) < 0 := by omega
  simp only [toChars, IsZero, IsNegative, hzero, hnegative, if_false, Int.natAbs_natCast]

/-- **What is written in plain notation** is a text in digits, and is read back. -/
theorem ofChars?_toChars (hunscaled : 0 ≤ d.unscaled) (hscale : 0 ≤ d.scale)
    (hrange : d.scale < 2 ^ 63) (hplain : ¬ d.IsScientific) :
    IsPlain d.toChars ∧ ofChars? d.toChars = some d.rewritten := by
  obtain ⟨unscaled, scale⟩ := d
  obtain ⟨n, rfl⟩ := Int.eq_ofNat_of_zero_le hunscaled
  obtain ⟨s, rfl⟩ := Int.eq_ofNat_of_zero_le hscale
  by_cases hn : n = 0
  · subst hn
    have hzero : toChars ⟨(0 : Nat), s⟩ = ['0'] := rfl
    have hrow : IsRow ['0'] := List.forall_mem_singleton.mpr rfl
    have hne : ['0'] ≠ [] := List.cons_ne_nil _ _
    rw [hzero]
    exact ⟨.row hrow hne, ofChars?_row hrow hne⟩
  · have hrewritten : rewritten ⟨n, s⟩ = ⟨n, s⟩ := if_neg (Int.natCast_ne_zero.mpr hn)
    rw [toChars_of_pos hn, hrewritten]
    rcases s with _ | s
    · -- without a scale the digits are all there is
      refine ⟨.row (isRow_digits n) (digits_ne_nil n), ?_⟩
      have hread := ofChars?_row (isRow_digits n) (digits_ne_nil n)
      rwa [digitsValue_digits] at hread
    · have hlimit : ¬ (digits n).length + leadingZeroLimit < s + 1 := by
        intro hlt
        exact hplain ⟨Int.natCast_ne_zero.mpr hn, Int.ofNat_lt.mpr hlt⟩
      obtain ⟨whole, fraction, htext, hwhole, hfraction, hne, hlength, hvalue⟩ :=
        exists_plainNotation (isRow_digits n) (s + 1)
      have hwritten : notationOf (digits n) ((s + 1 : Nat) : Int) = whole ++ '.' :: fraction := by
        rw [← htext]
        exact if_neg hlimit
      rw [hwritten]
      refine ⟨.point hwhole hfraction hne, ?_⟩
      have hread := ofChars?_point hwhole hfraction (List.append_ne_nil_of_left_ne_nil hne _)
        (by rw [hlength]; exact hrange)
      rwa [hvalue, digitsValue_digits, hlength] at hread

/-- **Scientific notation** is a text in digits, the exponent mark, a minus sign, and digits. -/
theorem exists_scientific (hunscaled : 0 ≤ d.unscaled) (h : d.IsScientific) :
    ∃ mantissa exponent, d.toChars = mantissa ++ 'E' :: '-' :: exponent ∧ IsPlain mantissa ∧
      IsRow exponent ∧ exponent ≠ [] := by
  obtain ⟨unscaled, scale⟩ := d
  obtain ⟨hne, hlt⟩ := h
  obtain ⟨n, rfl⟩ := Int.eq_ofNat_of_zero_le hunscaled
  obtain ⟨s, rfl⟩ := Int.eq_ofNat_of_zero_le (Int.le_trans (Int.natCast_nonneg _) (Int.le_of_lt hlt))
  have hn : n ≠ 0 := Int.natCast_ne_zero.mp hne
  have hlimit : (digits n).length + leadingZeroLimit < s := Int.ofNat_lt.mp hlt
  have hwritten : notationOf (digits n) s = scientificNotation (digits n) s := by
    rcases s with _ | s
    · exact absurd hlimit (Nat.not_lt_zero _)
    · exact if_pos hlimit
  rw [toChars_of_pos hn, hwritten, scientificNotation]
  have hrow := isRow_digits n
  obtain ⟨first, rest, hdigits⟩ := List.exists_cons_of_ne_nil (digits_ne_nil n)
  rw [hdigits] at hrow ⊢
  have hfirst : IsRow [first] := fun c hc => hrow c (List.mem_of_mem_take (i := 1) hc)
  have hrest : IsRow rest := fun c hc => hrow c (List.mem_cons_of_mem _ hc)
  -- a single digit is written without a point
  rcases rest with _ | ⟨second, rest⟩
  · exact ⟨[first], digits (s + 1 - 1), rfl, .row hfirst (List.cons_ne_nil _ _),
      isRow_digits _, digits_ne_nil _⟩
  · refine ⟨[first] ++ '.' :: second :: rest, digits (s + 1 - (first :: second :: rest).length),
      ?_, .point hfirst hrest (List.cons_ne_nil _ _), isRow_digits _, digits_ne_nil _⟩
    simp

/-- A decimal without a sign shows an exponent exactly in scientific notation. -/
theorem exists_exponentMark_iff (hunscaled : 0 ≤ d.unscaled) (hscale : 0 ≤ d.scale)
    (hrange : d.scale < 2 ^ 63) : (∃ c ∈ d.toChars, isExponentMark c) ↔ d.IsScientific := by
  constructor
  · rintro ⟨c, hc, hmark⟩
    by_contra hplain
    obtain ⟨htext, -⟩ := ofChars?_toChars hunscaled hscale hrange hplain
    rw [noMark_of_digits htext.digits_or_point c hc] at hmark
    cases hmark
  · intro h
    obtain ⟨mantissa, exponent, htext, -⟩ := exists_scientific hunscaled h
    refine ⟨'E', ?_, rfl⟩
    rw [htext]
    exact List.mem_append_right _ (List.mem_cons_self ..)

end Reckoner.Decimal
