import Reckoner.Proofs.Binary64.Nearest
import Reckoner.Proofs.Binary64.OfDecimal

/-!
# Decimals that are rounded once

The conversion of a decimal **keeps** a part of its digits (`Decimal.kept`), all of them if there are at most
forty-three (`kept_eq_self`), and then works in one of three ways. Digits after the point are divided by a power
of ten and rounded, and a whole number is rounded as it is. Only zeros that are left unwritten are multiplied
in after the digits have been rounded, by a power of ten that has been rounded as well.

* So a decimal is rounded **once** (`Decimal.RoundedOnce`) unless it has zeros left unwritten, and even then
  if its digits and the power of ten are so short that they are exact (`nearest?_of_lt`,
  `ten_power?_size`).
* The result is then the number **nearest** to what is kept (`roundsTo_kept`). This includes decimals that are
  next to zero or past the finite numbers, but none whose scale is too large: they have no result.
-/

namespace Reckoner

/-! ## The nearest of exact results -/

namespace Binary64

variable {x y : Binary64}

/-- Fractions are rounded to nearest. -/
theorem exists_nearest?_eq (negative : Bool) (numerator : ℕ) {denominator : ℕ}
    (hpos : 0 < denominator) :
    ∃ m, IsNearest m (numerator / denominator) ∧
      nearest? negative numerator denominator = ofMagnitude? negative m :=
  ⟨_, isNearest_roundMagnitude numerator hpos, rfl⟩

/-- Products are rounded to nearest. -/
theorem exists_mul?_eq (x y : Binary64) :
    ∃ m, IsNearest m (x.size * y.size) ∧
      x.mul? y = ofMagnitude? (x.negative ^^ y.negative) m := by
  rw [← units_mul_div]
  exact exists_nearest?_eq _ _ (Nat.mul_pos unitsPerOne_pos unitsPerOne_pos)

/-- Digits after the point are rounded to nearest, also where the power of ten is not written out. -/
theorem exists_nearestScaled?_eq (negative : Bool) (digits scale : ℕ) :
    ∃ m, IsNearest m (digits / 10 ^ scale) ∧
      nearestScaled? negative digits scale = ofMagnitude? negative m := by
  rw [nearestScaled?]
  split_ifs with hsmall
  · exact ⟨0, isNearest_zero (div_ten_pow_le hsmall), rfl⟩
  · obtain ⟨m, hm, h⟩ := exists_nearest?_eq negative digits (Nat.pow_pos (by decide) : 0 < 10 ^ scale)
    push_cast at hm
    exact ⟨m, hm, h⟩

theorem size_one : one.size = 1 := by
  have hunits : one.units = unitsPerOne := by decide +kernel
  rw [size, hunits, div_self cast_unitsPerOne_pos.ne']

/-- A product with one is exact. -/
theorem mul?_one (x : Binary64) : x.mul? one = some x := by
  obtain ⟨m, hm, h⟩ := exists_mul?_eq x one
  rw [size_one, mul_one] at hm
  rw [h, hm.unique (isNearest_valueOf x.magnitude), show one.negative = false from rfl,
    Bool.xor_false, ofMagnitude?_self]

/-! ## What is exact -/

theorem valueOf_overflow : valueOf overflow = 2 ^ 1024 := by
  have hunits : unitsOf overflow = 2 ^ 1024 * unitsPerOne := by decide +kernel
  rw [valueOf, hunits, ones_div_unitsPerOne, Nat.cast_pow, Nat.cast_ofNat]

/-- A whole number of at most 53 binary digits is a number as it is. -/
theorem nearest?_of_lt {n : ℕ} (hn : n < 2 ^ 53) (negative : Bool) :
    ∃ x, nearest? negative n 1 = some x ∧ x.negative = negative ∧ x.size = n := by
  have hspacing : spacingAround n 1 ≤ 1074 := by
    rw [spacingAround, Nat.div_one, spacing, Nat.sub_le_iff_le_add]
    rcases Nat.eq_zero_or_pos n with rfl | hpos
    · rw [Nat.zero_mul, Nat.log2_zero]
      exact Nat.zero_le _
    · have hne : n * unitsPerOne ≠ 0 := (Nat.mul_pos hpos unitsPerOne_pos).ne'
      have hlt : n * unitsPerOne < 2 ^ 53 * unitsPerOne := Nat.mul_lt_mul_of_pos_right hn unitsPerOne_pos
      rw [unitsPerOne] at hne hlt ⊢
      generalize 1074 = bits at hne hlt ⊢
      rw [← Nat.pow_add, ← Nat.log2_lt hne] at hlt
      omega
  have hfine : 2 ^ spacingAround n 1 ∣ n * unitsPerOne := by
    rw [unitsPerOne]
    generalize 1074 = bits at hspacing ⊢
    exact Dvd.dvd.mul_left (Nat.pow_dvd_pow 2 hspacing) n
  have hvalue : valueOf (roundMagnitude n 1) = n := by
    rw [valueOf, unitsOf_roundMagnitude, Nat.one_mul,
      roundHalfEven_of_dvd (Nat.two_pow_pos _) hfine, Nat.div_mul_cancel hfine,
      ones_div_unitsPerOne]
  have hfinite : roundMagnitude n 1 < overflow := by
    rw [← valueOf_strictMono.lt_iff_lt, hvalue, valueOf_overflow]
    have hn' : (n : ℚ) < 2 ^ 53 := by exact_mod_cast hn
    exact hn'.trans_le (pow_le_pow_right₀ one_le_two (by decide))
  exact ⟨⟨negative, roundMagnitude n 1, hfinite⟩, dif_pos hfinite, rfl, hvalue⟩

/-- The powers of ten up to the twenty-second are exact. -/
theorem ten_power?_size {exponent : ℕ} (hexponent : exponent < 23) :
    ∃ x, ten.power? exponent = some x ∧ x.negative = false ∧ x.size = 10 ^ exponent := by
  have hpowers : ∀ exponent < 23, (ten.power? exponent).map (fun x => (x.negative, x.units)) =
      some (false, 10 ^ exponent * unitsPerOne) := by
    decide +kernel
  obtain ⟨x, hx, hunits⟩ := Option.map_eq_some_iff.mp (hpowers exponent hexponent)
  rw [Prod.mk.injEq] at hunits
  refine ⟨x, hx, hunits.1, ?_⟩
  rw [size, hunits.2, ones_div_unitsPerOne, Nat.cast_pow, Nat.cast_ofNat]

end Binary64

/-! ## What is kept -/

namespace Decimal

open Binary64 (RoundsTo IsNearest ofMagnitude?)

/-- What conversion keeps of a decimal: all of it where it is written without a scale, and otherwise what
shortening leaves of it. -/
def kept (d : Decimal) : Decimal :=
  if d.scale = 0 then d
  else ⟨d.unscaled.tdiv (10 ^ surplusDigits d.unscaled.natAbs),
    d.scale - surplusDigits d.unscaled.natAbs⟩

/-- The decimal is rounded once: what is kept has no zeros left unwritten, or so few of them, and so few
digits, that both are exact. -/
def RoundedOnce (d : Decimal) : Prop :=
  d.IsZero ∨ d.kept.scale < 2 ^ 31 ∧
    (0 ≤ d.kept.scale ∨ -22 ≤ d.kept.scale ∧ d.kept.unscaled.natAbs < 2 ^ 53)

variable {d : Decimal}

theorem kept_of_scale_eq_zero (h : d.scale = 0) : d.kept = d := if_pos h

theorem kept_scale (h : d.scale ≠ 0) :
    d.kept.scale = d.scale - surplusDigits d.unscaled.natAbs := by
  rw [kept, if_neg h]

theorem kept_unscaled (h : d.scale ≠ 0) :
    d.kept.unscaled = d.unscaled.tdiv (10 ^ surplusDigits d.unscaled.natAbs) := by
  rw [kept, if_neg h]

theorem kept_natAbs (h : d.scale ≠ 0) : d.kept.unscaled.natAbs = d.keptPart := by
  rw [kept_unscaled h, keptPart, Int.natAbs_tdiv, Int.natAbs_pow]
  rfl

theorem kept_isZero (h : d.IsZero) : d.kept.IsZero := by
  by_cases hscale : d.scale = 0
  · rw [kept_of_scale_eq_zero hscale]
    exact h
  · rw [IsZero, kept_unscaled hscale, h, Int.zero_tdiv]

/-- Nothing is cut off a number of at most forty-three digits. -/
theorem surplusDigits_eq_zero {unscaled : ℕ} (h : unscaled < 10 ^ 43) : surplusDigits unscaled = 0 := by
  have hpower : 2 ^ (unscaled.log2 + 2) < 10 ^ 44 := by
    rcases Nat.eq_zero_or_pos unscaled with rfl | hpos
    · decide
    · have hlog := Nat.log2_self_le hpos.ne'
      rw [Nat.pow_add]
      omega
  have hlength := Nat.toDigits_length 10 _ 44 (by decide) hpower
  simp only [surplusDigits, keptDigits, blockDigits]
  omega

theorem kept_eq_self (h : d.unscaled.natAbs < 10 ^ 43) : d.kept = d := by
  by_cases hscale : d.scale = 0
  · exact kept_of_scale_eq_zero hscale
  · ext
    · rw [kept_unscaled hscale, surplusDigits_eq_zero h, pow_zero, Int.tdiv_one]
    · rw [kept_scale hscale, surplusDigits_eq_zero h, Nat.cast_zero, sub_zero]

/-- What is kept has the sign of the decimal. -/
theorem kept_isNegative_iff : d.kept.IsNegative ↔ d.IsNegative := by
  by_cases hscale : d.scale = 0
  · rw [kept_of_scale_eq_zero hscale]
  have hunscaled := kept_unscaled hscale
  have hpower : (0 : ℤ) ≤ 10 ^ surplusDigits d.unscaled.natAbs := by positivity
  rcases lt_or_ge d.unscaled 0 with hneg | hnonneg
  · have hpos := keptPart_pos (show ¬ d.IsZero from hneg.ne)
    have hle := Int.tdiv_nonneg (Int.neg_nonneg_of_nonpos hneg.le) hpower
    rw [Int.neg_tdiv, ← hunscaled] at hle
    rw [← kept_natAbs hscale] at hpos
    omega
  · have hge := Int.tdiv_nonneg hnonneg hpower
    rw [← hunscaled] at hge
    omega

/-! ## Rounding once -/

/-- The nearest magnitude, with the sign of the decimal, is what the part that is kept is rounded to. -/
theorem roundsTo_of_isNearest {m : ℕ} (h : IsNearest m d.kept.size) :
    RoundsTo d.kept.toRat (ofMagnitude? (decide d.IsNegative) m) := by
  refine ⟨m, h, ?_⟩
  congr 1
  rw [decide_eq_decide, ← kept_isNegative_iff, toRat_neg_iff]

/-- Digits after the point are rounded as a fraction. -/
theorem shortened?_fraction (negative : Bool) (unscaled : ℕ) {places : ℕ} (hpos : 0 < places)
    (hlt : places < 2 ^ 31) :
    shortened? negative unscaled places = Binary64.nearestScaled? negative unscaled places := by
  have hshort : ShortScale places := ⟨by omega, by omega⟩
  unfold shortened?
  rw [if_neg (not_not.mpr hshort)]
  clear hshort hlt
  cases places with
  | zero => cases hpos
  | succ places => rfl

/-- Zeros left unwritten are multiplied in. -/
theorem shortened?_scaled (negative : Bool) (unscaled : ℕ) {zeros : ℕ} (hlt : zeros < 2 ^ 31) :
    shortened? negative unscaled (-zeros) =
      (Binary64.nearest? negative unscaled 1).bind fun digits =>
        (Binary64.ten.power? zeros).bind digits.mul? := by
  have hshort : ShortScale (-zeros) := ⟨by omega, by omega⟩
  unfold shortened?
  rw [if_neg (not_not.mpr hshort)]
  clear hshort hlt
  cases zeros with
  | zero => rfl
  | succ zeros => rfl

/-- With no zeros to multiply in, the digits are rounded as they are. -/
theorem exists_shortened?_zero_eq (negative : Bool) (unscaled : ℕ) :
    ∃ m, IsNearest m unscaled ∧ shortened? negative unscaled 0 = ofMagnitude? negative m := by
  obtain ⟨m, hm, h⟩ := Binary64.exists_nearest?_eq negative unscaled Nat.one_pos
  rw [Nat.cast_one, div_one] at hm
  refine ⟨m, hm, ?_⟩
  have hone : Binary64.ten.power? 0 = some Binary64.one := by
    rw [Binary64.power?, Binary64.squareAndMultiply?_eq]
    rfl
  refine (shortened?_scaled negative unscaled (Nat.two_pow_pos 31)).trans ?_
  rw [hone, h]
  cases ofMagnitude? negative m with
  | none => rfl
  | some x =>
    rw [Option.bind_some, Option.bind_some]
    exact Binary64.mul?_one x

/-- Digits and a power of ten that are exact are multiplied to the nearest number. -/
theorem exists_shortened?_exact_eq (negative : Bool) {unscaled zeros : ℕ} (hlt : unscaled < 2 ^ 53)
    (hzeros : zeros < 23) :
    ∃ m, IsNearest m (unscaled * 10 ^ zeros) ∧
      shortened? negative unscaled (-zeros) = ofMagnitude? negative m := by
  obtain ⟨digits, hdigits, hsign, hsize⟩ := Binary64.nearest?_of_lt hlt negative
  obtain ⟨power, hpower, hsign', hsize'⟩ := Binary64.ten_power?_size hzeros
  obtain ⟨m, hm, h⟩ := Binary64.exists_mul?_eq digits power
  rw [hsize, hsize'] at hm
  rw [hsign, hsign', Bool.xor_false] at h
  refine ⟨m, hm, ?_⟩
  rw [shortened?_scaled negative unscaled (by omega), hdigits, Option.bind_some, hpower,
    Option.bind_some, h]

theorem toBinary64?_of_isZero (h : d.IsZero) : d.toBinary64? = some Binary64.zero :=
  if_pos (Int.natAbs_eq_zero.mpr h)

theorem toBinary64?_of_scale_eq_zero (hne : ¬ d.IsZero) (hscale : d.scale = 0) :
    d.toBinary64? = Binary64.nearest? (decide d.IsNegative) d.unscaled.natAbs 1 := by
  rw [toBinary64?, if_neg (mt Int.natAbs_eq_zero.mp hne), if_pos hscale]

/-- A decimal with a scale is converted from what is kept of it. -/
theorem toBinary64?_of_scale_ne_zero (hne : ¬ d.IsZero) (hscale : d.scale ≠ 0) :
    d.toBinary64? = shortened? (decide d.IsNegative) d.keptPart d.kept.scale := by
  rw [toBinary64?, if_neg (mt Int.natAbs_eq_zero.mp hne), if_neg hscale, kept_scale hscale]
  rfl

/-- **A decimal that is rounded once** gives the number nearest to what is kept of it. -/
theorem roundsTo_kept (h : d.RoundedOnce) : RoundsTo d.kept.toRat d.toBinary64? := by
  suffices hnearest : ∃ m, IsNearest m d.kept.size ∧
      d.toBinary64? = ofMagnitude? (decide d.IsNegative) m by
    obtain ⟨m, hm, hresult⟩ := hnearest
    rw [hresult]
    exact roundsTo_of_isNearest hm
  rw [size_eq]
  by_cases hzero : d.IsZero
  · rw [toBinary64?_of_isZero hzero, kept_isZero hzero, decide_eq_false (not_lt.mpr hzero.ge),
      Int.natAbs_zero, Nat.cast_zero, zero_mul]
    exact ⟨0, Binary64.isNearest_zero (by linarith [Binary64.leastPositive_pos]), rfl⟩
  by_cases hscale : d.scale = 0
  · rw [toBinary64?_of_scale_eq_zero hzero hscale, kept_of_scale_eq_zero hscale, hscale]
    simpa using Binary64.exists_nearest?_eq (decide d.IsNegative) d.unscaled.natAbs Nat.one_pos
  rw [toBinary64?_of_scale_ne_zero hzero hscale, kept_natAbs hscale]
  obtain ⟨hhigh, hlow⟩ := h.resolve_left hzero
  rw [kept_natAbs hscale] at hlow
  rcases lt_trichotomy d.kept.scale 0 with hneg | heq | hpos
  · -- zeros are multiplied in
    obtain ⟨zeros, hzeros⟩ := Int.exists_eq_neg_ofNat hneg.le
    obtain ⟨hzeros', hdigits⟩ := hlow.resolve_left (by omega)
    rw [hzeros, neg_neg, zpow_natCast]
    exact exists_shortened?_exact_eq _ hdigits (by omega)
  · rw [heq, neg_zero, zpow_zero, mul_one]
    exact exists_shortened?_zero_eq _ _
  · obtain ⟨places, hplaces⟩ := Int.eq_ofNat_of_zero_le hpos.le
    rw [hplaces, zpow_neg, zpow_natCast, ← div_eq_mul_inv,
      shortened?_fraction _ _ (by omega) (by omega)]
    exact Binary64.exists_nearestScaled?_eq _ _ _

end Decimal

end Reckoner
