import Mathlib.Data.Nat.Digits.Defs
import Reckoner.Binary64.OfDecimal
import Reckoner.Proofs.Binary64.Rounding
import Reckoner.Proofs.Decimal.Rounding

/-!
# What the conversion of a decimal keeps

A decimal is converted in one of four ways (`Decimal.Conversion`), and each keeps what the caller may
rely on.

* The **sign** is that of the decimal (`toBinary64?_negative`).
* **Whole** decimals give whole numbers (`toBinary64?_isIntegral`): cutting digits off leaves them whole
  as long as there are digits after the point, and powers of ten and products of whole numbers are whole.
* The **value** is kept up to its tolerance, except where a power of ten is multiplied in
  (`abs_size_sub_lt`). What is cut off is at most the `10 ^ 24`th part of the decimal, far less than
  rounding may take.

A power of ten is multiplied in only if all digits that are kept stand before the point, and a decimal
of that kind is near to a whole number anyway (`nearWhole_of_scale_le`). So in all four ways only the
smallest decimals are converted to **zero** (`size_lt_of_isZero`), and only those near to whole numbers
to whole numbers (`nearWhole_of_isIntegral`).
-/

namespace Reckoner

/-! ## Powers -/

namespace Binary64

variable {x y z : Binary64}

/-- One step of repeated squaring: the lowest binary digit of the exponent, then the others. -/
theorem squareAndMultiply?_eq (product base : Binary64) (exponent : ℕ) :
    squareAndMultiply? product base exponent =
      (if exponent % 2 = 1 then product.mul? base else some product).bind fun next =>
        if exponent / 2 = 0 then some next
        else (base.mul? base).bind (squareAndMultiply? next · (exponent / 2)) := by
  rw [squareAndMultiply?]
  split_ifs <;> rfl

/-- What holds of the factors and is kept by products holds of a power. -/
theorem squareAndMultiply?_invariant {P : Binary64 → Prop}
    (hmul : ∀ {x y z : Binary64}, P x → P y → x.mul? y = some z → P z) {exponent : ℕ} :
    ∀ {product base : Binary64}, P product → P base →
      squareAndMultiply? product base exponent = some x → P x := by
  induction exponent using Nat.strong_induction_on with
  | _ exponent ih =>
    intro product base hproduct hbase h
    rw [squareAndMultiply?_eq] at h
    obtain ⟨next, hnext, h⟩ := Option.bind_eq_some_iff.mp h
    have hnext' : P next := by
      split_ifs at hnext
      · exact hmul hproduct hbase hnext
      · cases hnext
        exact hproduct
    split_ifs at h with hlast
    · cases h
      exact hnext'
    · obtain ⟨square, hsquare, h⟩ := Option.bind_eq_some_iff.mp h
      exact ih (exponent / 2) (by omega) hnext' (hmul hbase hbase hsquare) h

/-- The number is a whole number above zero. -/
structure IsPositiveWhole (x : Binary64) : Prop where
  /-- it has no sign -/
  not_negative : x.negative = false
  /-- it has no fractional part -/
  isIntegral : x.IsIntegral
  /-- it is not zero -/
  not_isZero : ¬ x.IsZero

theorem IsPositiveWhole.mul? (hx : x.IsPositiveWhole) (hy : y.IsPositiveWhole)
    (h : x.mul? y = some z) : z.IsPositiveWhole where
  not_negative := by rw [mul?_negative h, hx.not_negative, hy.not_negative]; rfl
  isIntegral := mul?_isIntegral hx.isIntegral hy.isIntegral h
  not_isZero := mul?_not_isZero hx.isIntegral hy.isIntegral hx.not_isZero hy.not_isZero h

theorem isPositiveWhole_power?_ten {exponent : ℕ} (h : ten.power? exponent = some x) :
    x.IsPositiveWhole :=
  squareAndMultiply?_invariant IsPositiveWhole.mul?
    ⟨rfl, by decide +kernel, by decide⟩ ⟨rfl, by decide +kernel, by decide⟩ h

/-! ## Fractions -/

variable {negative : Bool} {digits scale : ℕ}

theorem nearestScaled?_negative (h : nearestScaled? negative digits scale = some x) :
    x.negative = negative := by
  rw [nearestScaled?] at h
  split_ifs at h
  · cases h
    rfl
  · exact (nearest?_eq_some h).1

/-- What is not written out is less than half of the smallest positive number. -/
theorem div_ten_pow_le (hsmall : digits.log2 + 1 + 1075 < 3 * scale) :
    (digits : ℚ) / 10 ^ scale ≤ leastPositive / 2 := by
  have hunits := cast_unitsPerOne_pos
  have hle : digits * (unitsPerOne * 2) ≤ 10 ^ scale := by
    calc digits * (unitsPerOne * 2)
        ≤ 2 ^ (digits.log2 + 1) * (unitsPerOne * 2) := Nat.mul_le_mul_right _ Nat.lt_log2_self.le
      _ ≤ 2 ^ (3 * scale) := by
          rw [unitsPerOne]
          generalize hbits : 1074 = bits
          rw [← Nat.pow_succ, ← Nat.pow_add]
          exact Nat.pow_le_pow_right (by decide) (by omega)
      _ ≤ 10 ^ scale := by
          rw [Nat.pow_mul]
          exact Nat.pow_le_pow_left (by decide) scale
  have hle' : (digits : ℚ) * (unitsPerOne * 2) ≤ 1 * 10 ^ scale := by
    rw [one_mul]
    exact_mod_cast hle
  rw [leastPositive, div_div]
  exact (div_le_div_iff₀ (by positivity) (mul_pos hunits two_pos)).mpr hle'

/-- A fraction is moved by half its tolerance at most. -/
theorem abs_size_sub_le_of_nearestScaled? (h : nearestScaled? negative digits scale = some x) :
    |x.size - digits / 10 ^ scale| ≤ tolerance (digits / 10 ^ scale) / 2 := by
  rw [nearestScaled?] at h
  split_ifs at h with hsmall
  · cases h
    have hzero : (signedZero negative).size = 0 := size_eq_zero_iff.mpr rfl
    have hle : leastPositive ≤ tolerance (digits / 10 ^ scale) := le_max_left _ _
    rw [hzero, zero_sub, abs_neg, abs_of_nonneg (by positivity)]
    linarith [div_ten_pow_le hsmall]
  · have hle := abs_size_sub_le (by positivity) h
    push_cast at hle
    exact hle

theorem nearestScaled?_isIntegral (hwhole : 10 ^ scale ∣ digits)
    (h : nearestScaled? negative digits scale = some x) : x.IsIntegral := by
  rw [nearestScaled?] at h
  split_ifs at h
  · cases h
    exact isIntegral_of_isZero rfl
  · exact nearest?_isIntegral (by positivity) hwhole h

end Binary64

/-! ## Shortening -/

namespace Decimal

open Binary64 (tolerance)

theorem ten_pow_length_le {n : ℕ} (h : n ≠ 0) : 10 ^ ((Nat.toDigits 10 n).length - 1) ≤ n := by
  by_contra hlt
  rcases Nat.eq_zero_or_pos ((Nat.toDigits 10 n).length - 1) with hzero | hpos
  · rw [hzero, Nat.pow_zero] at hlt
    omega
  · have hlength := Nat.toDigits_length 10 n _ hpos (not_le.mp hlt)
    omega

theorem lt_ten_pow_length (n : ℕ) : n < 10 ^ (Nat.toDigits 10 n).length :=
  (Nat.length_toDigits_le_iff (by decide) Nat.length_toDigits_pos).mp le_rfl

/-- Where digits are cut off, at least twenty-four are left. -/
theorem ten_pow_surplusDigits_le {unscaled : ℕ} (h : surplusDigits unscaled ≠ 0) :
    10 ^ surplusDigits unscaled * 10 ^ 24 ≤ unscaled := by
  have hne : unscaled ≠ 0 := by
    rintro rfl
    exact h (by decide)
  -- the estimate is taken from a power of two that is at most four times the number
  have hsurplus : surplusDigits unscaled + 25 ≤
      (Nat.toDigits 10 (2 ^ (unscaled.log2 + 2))).length - 1 := by
    have hle := Nat.div_mul_le_self
      ((Nat.toDigits 10 (2 ^ (unscaled.log2 + 2))).length - 1 - keptDigits) blockDigits
    simp only [surplusDigits, keptDigits] at h hle ⊢
    omega
  have hestimate := (Nat.pow_le_pow_right (by decide : 10 > 0) hsurplus).trans
    (ten_pow_length_le (Nat.two_pow_pos _).ne')
  have hlog := Nat.log2_self_le hne
  rw [Nat.pow_add, Nat.pow_add 2] at hestimate
  generalize 10 ^ surplusDigits unscaled = cut at hestimate ⊢
  linarith

/-- What is cut off is a small part of the number. -/
theorem mod_ten_pow_le (unscaled : ℕ) :
    unscaled % 10 ^ surplusDigits unscaled * 10 ^ 24 ≤ unscaled := by
  by_cases h : surplusDigits unscaled = 0
  · rw [h, Nat.pow_zero, Nat.mod_one, Nat.zero_mul]
    exact Nat.zero_le _
  · have hrest := Nat.mod_lt unscaled (Nat.pow_pos (by decide : 0 < 10) (n := surplusDigits unscaled))
    exact (Nat.mul_le_mul_right _ hrest.le).trans (ten_pow_surplusDigits_le h)

/-- The digits that are left. -/
def keptPart (d : Decimal) : ℕ := d.unscaled.natAbs / 10 ^ surplusDigits d.unscaled.natAbs

/-- The absolute value as a rational number. -/
def size (d : Decimal) : ℚ := |d.toRat|

theorem size_eq (d : Decimal) : d.size = d.unscaled.natAbs * (10 : ℚ) ^ (-d.scale) := abs_toRat_eq d

/-- Shortening takes a small part of a decimal away. -/
theorem shortened_bounds (d : Decimal) :
    d.keptPart * (10 : ℚ) ^ (surplusDigits d.unscaled.natAbs - d.scale) ≤ d.size ∧
      d.size - d.keptPart * (10 : ℚ) ^ (surplusDigits d.unscaled.natAbs - d.scale) ≤
        d.size / 10 ^ 24 := by
  have hrest := mod_ten_pow_le d.unscaled.natAbs
  have hdivision := Nat.div_add_mod' d.unscaled.natAbs (10 ^ surplusDigits d.unscaled.natAbs)
  rw [size_eq, sub_eq_add_neg (surplusDigits _ : ℤ), zpow_add₀ (by norm_num), zpow_natCast]
  change d.keptPart * 10 ^ surplusDigits d.unscaled.natAbs + _ = _ at hdivision
  generalize d.unscaled.natAbs % 10 ^ surplusDigits d.unscaled.natAbs = rest at hrest hdivision
  have hunit := ten_zpow_pos (-d.scale)
  have hrest' : (rest : ℚ) * 10 ^ 24 ≤ d.unscaled.natAbs := by exact_mod_cast hrest
  have hdivision' : (d.keptPart : ℚ) * 10 ^ surplusDigits d.unscaled.natAbs + rest =
      d.unscaled.natAbs := by exact_mod_cast hdivision
  have hcut : d.unscaled.natAbs * (10 : ℚ) ^ (-d.scale) -
      d.keptPart * ((10 : ℚ) ^ surplusDigits d.unscaled.natAbs * (10 : ℚ) ^ (-d.scale)) =
        rest * (10 : ℚ) ^ (-d.scale) := by
    rw [← hdivision']
    ring
  have hnonneg : 0 ≤ rest * (10 : ℚ) ^ (-d.scale) := by positivity
  constructor
  · linarith
  · rw [hcut, le_div_iff₀ (by positivity), mul_right_comm]
    exact mul_le_mul_of_nonneg_right hrest' hunit.le

/-- Some digits are always left. -/
theorem keptPart_pos {d : Decimal} (h : ¬ d.IsZero) : 0 < d.keptPart := by
  rw [keptPart, Nat.div_pos_iff]
  refine ⟨by positivity, ?_⟩
  by_cases hsurplus : surplusDigits d.unscaled.natAbs = 0
  · rw [hsurplus]
    exact Nat.one_le_iff_ne_zero.mpr (Int.natAbs_ne_zero.mpr h)
  · exact (Nat.le_mul_of_pos_right _ (by positivity)).trans (ten_pow_surplusDigits_le hsurplus)

/-! ## The ways of conversion -/

variable {d : Decimal} {x : Binary64}

/-- A shortened number is rounded as a fraction, or its digits are multiplied by a power of ten. -/
theorem shortened?_cases {negative : Bool} {unscaled : ℕ} {scale : ℤ}
    (h : shortened? negative unscaled scale = some x) :
    (∃ places : ℕ, scale = places ∧ Binary64.nearestScaled? negative unscaled places = some x) ∨
      scale ≤ 0 ∧ ∃ digits power exponent, Binary64.nearest? negative unscaled 1 = some digits ∧
        Binary64.ten.power? exponent = some power ∧ digits.mul? power = some x := by
  unfold shortened? at h
  by_cases hshort : ShortScale scale
  · rw [if_neg (not_not.mpr hshort)] at h
    clear hshort
    rcases scale with (_ | places) | scale
    · obtain ⟨digits, hdigits, h⟩ := Option.bind_eq_some_iff.mp h
      obtain ⟨power, hpower, h⟩ := Option.bind_eq_some_iff.mp h
      exact .inr ⟨le_rfl, digits, power, _, hdigits, hpower, h⟩
    · exact .inl ⟨places + 1, rfl, h⟩
    · obtain ⟨digits, hdigits, h⟩ := Option.bind_eq_some_iff.mp h
      obtain ⟨power, hpower, h⟩ := Option.bind_eq_some_iff.mp h
      exact .inr ⟨(Int.negSucc_lt_zero _).le, digits, power, _, hdigits, hpower, h⟩
  · rw [if_pos hshort] at h
    cases h

/-- The ways in which a decimal is converted. -/
inductive Conversion (d : Decimal) (x : Binary64) : Prop
  /-- zero, whatever its scale -/
  | zero (hzero : d.IsZero) (hx : x = Binary64.zero)
  /-- a number written without a scale -/
  | plain (hscale : d.scale = 0)
      (hx : Binary64.nearest? d.IsNegative d.unscaled.natAbs 1 = some x)
  /-- a shortened number with digits after the point -/
  | fraction (places : ℕ) (hscale : d.scale = surplusDigits d.unscaled.natAbs + places)
      (hx : Binary64.nearestScaled? d.IsNegative d.keptPart places = some x)
  /-- a shortened number with zeros left unwritten -/
  | scaled (digits power : Binary64) (exponent : ℕ) (hne : ¬ d.IsZero)
      (hscale : d.scale ≤ surplusDigits d.unscaled.natAbs)
      (hdigits : Binary64.nearest? d.IsNegative d.keptPart 1 = some digits)
      (hpower : Binary64.ten.power? exponent = some power) (hx : digits.mul? power = some x)

/-- Inversion for conversions. -/
theorem conversion (h : d.toBinary64? = some x) : Conversion d x := by
  rw [toBinary64?] at h
  split_ifs at h with hzero hscale
  · cases h
    exact .zero (Int.natAbs_eq_zero.mp hzero) rfl
  · exact .plain hscale h
  · rcases shortened?_cases h with ⟨places, hplaces, hx⟩ |
      ⟨hplaces, digits, power, exponent, hdigits, hpower, hx⟩
    · exact .fraction places (by omega) hx
    · exact .scaled digits power exponent (mt Int.natAbs_eq_zero.mpr hzero) (by omega) hdigits hpower hx

/-! ## Signs -/

/-- The **sign** is kept; a zero has none. -/
theorem toBinary64?_negative (h : d.toBinary64? = some x) : x.negative = decide d.IsNegative := by
  cases conversion h with
  | zero hzero hx =>
    have hnonneg : ¬ d.IsNegative := by omega
    rw [hx, decide_eq_false hnonneg]
    rfl
  | plain hscale hx => exact (Binary64.nearest?_eq_some hx).1
  | fraction places hscale hx => exact Binary64.nearestScaled?_negative hx
  | scaled digits power exponent hne hscale hdigits hpower hx =>
    rw [Binary64.mul?_negative hx, (Binary64.nearest?_eq_some hdigits).1,
      (Binary64.isPositiveWhole_power?_ten hpower).not_negative, Bool.xor_false]

/-! ## Whole numbers -/

/-- The decimal denotes a whole number. -/
def IsWhole (d : Decimal) : Prop := ∃ n : ℤ, d.toRat = n

/-- The digits of a whole number end in as many zeros as stand after the point. -/
theorem IsWhole.dvd (h : d.IsWhole) {places : ℕ} (hscale : d.scale = places) :
    10 ^ places ∣ d.unscaled.natAbs := by
  obtain ⟨n, hn⟩ := h
  rw [toRat, hscale, zpow_neg, zpow_natCast, ← div_eq_mul_inv, div_eq_iff (by positivity)] at hn
  have hdvd : (10 ^ places : ℤ) ∣ d.unscaled := ⟨n, by rw [mul_comm]; exact_mod_cast hn⟩
  exact_mod_cast Int.natAbs_dvd_natAbs.mpr hdvd

/-- **Whole numbers** are converted to whole numbers. -/
theorem toBinary64?_isIntegral (hwhole : d.IsWhole) (h : d.toBinary64? = some x) : x.IsIntegral := by
  cases conversion h with
  | zero hzero hx =>
    rw [hx]
    exact Binary64.isIntegral_of_isZero rfl
  | plain hscale hx => exact Binary64.nearest?_isIntegral Nat.one_pos (one_dvd _) hx
  | fraction places hscale hx =>
    have hdvd : 10 ^ (surplusDigits d.unscaled.natAbs + places) ∣ d.unscaled.natAbs :=
      hwhole.dvd (by push_cast; exact hscale)
    rw [Nat.pow_add] at hdvd
    exact Binary64.nearestScaled?_isIntegral (Nat.dvd_div_of_mul_dvd hdvd) hx
  | scaled digits power exponent hne hscale hdigits hpower hx =>
    exact Binary64.mul?_isIntegral (Binary64.nearest?_isIntegral Nat.one_pos (one_dvd _) hdigits)
      (Binary64.isPositiveWhole_power?_ten hpower).isIntegral hx

/-! ## Precision -/

/-- The number is within the tolerance of conversion of a whole number. -/
def NearWhole (q : ℚ) : Prop := ∃ n : ℤ, |q - n| < tolerance |q|

theorem nearWhole_abs_iff {q : ℚ} : NearWhole |q| ↔ NearWhole q := by
  have hneg {q : ℚ} (h : NearWhole q) : NearWhole (-q) := by
    obtain ⟨n, hn⟩ := h
    refine ⟨-n, ?_⟩
    rw [abs_neg, ← abs_neg (-q - _)]
    push_cast
    rwa [show -(-q - -(n : ℚ)) = q - n by ring]
  rcases abs_choice q with hq | hq
  · rw [hq]
  · rw [hq]
    exact ⟨fun h => by simpa using hneg h, hneg⟩

/-- Large numbers are near to whole ones. -/
theorem nearWhole_of_large {q : ℚ} (h : 2 ^ 52 < |q|) : NearWhole q := by
  refine ⟨round q, (abs_sub_round q).trans_lt ?_⟩
  refine lt_of_lt_of_le ?_ (Binary64.div_le_tolerance |q|)
  rw [lt_div_iff₀ (by positivity)]
  linarith

theorem IsWhole.nearWhole (h : d.IsWhole) : NearWhole d.toRat := by
  obtain ⟨n, hn⟩ := h
  refine ⟨n, ?_⟩
  rw [hn, sub_self, abs_zero]
  exact Binary64.tolerance_pos _

/-- Numbers with zeros left unwritten at the end of what is kept are near to whole ones. -/
theorem nearWhole_of_scale_le (h : d.scale ≤ surplusDigits d.unscaled.natAbs) :
    NearWhole d.toRat := by
  by_cases hsurplus : surplusDigits d.unscaled.natAbs = 0
  · have hwhole : d.IsWhole := by
      refine ⟨d.unscaled * 10 ^ (-d.scale).toNat, ?_⟩
      have hscale : -d.scale = (-d.scale).toNat := by omega
      rw [toRat, hscale, zpow_natCast]
      push_cast
      rfl
    exact hwhole.nearWhole
  · -- at least twenty-four digits stand before the point
    apply nearWhole_of_large
    have hunit := ten_zpow_pos (-d.scale)
    have hlong : (10 : ℚ) ^ surplusDigits d.unscaled.natAbs * 10 ^ 24 ≤ d.unscaled.natAbs := by
      exact_mod_cast ten_pow_surplusDigits_le hsurplus
    have hscale : (1 : ℚ) ≤ (10 : ℚ) ^ surplusDigits d.unscaled.natAbs * (10 : ℚ) ^ (-d.scale) := by
      rw [← zpow_natCast, ← zpow_add₀ (by norm_num)]
      exact one_le_zpow₀ (by norm_num) (by omega)
    calc (2 : ℚ) ^ 52
        < 10 ^ 24 := by norm_num
      _ ≤ (10 : ℚ) ^ surplusDigits d.unscaled.natAbs * (10 : ℚ) ^ (-d.scale) * 10 ^ 24 :=
          le_mul_of_one_le_left (by norm_num) hscale
      _ = (10 : ℚ) ^ surplusDigits d.unscaled.natAbs * 10 ^ 24 * (10 : ℚ) ^ (-d.scale) := by ring
      _ ≤ d.unscaled.natAbs * (10 : ℚ) ^ (-d.scale) := mul_le_mul_of_nonneg_right hlong hunit.le
      _ = |d.toRat| := (size_eq d).symm

theorem size_nonneg (d : Decimal) : 0 ≤ d.size := abs_nonneg _

/-- Rounding a shortened number stays within the tolerance of what was shortened. -/
theorem half_tolerance_add_lt {p q : ℚ} (hq : 0 ≤ q) (h : p ≤ q) :
    tolerance p / 2 + q / 10 ^ 24 < tolerance q := by
  have hmono := Binary64.tolerance_mono h
  have hpos := Binary64.tolerance_pos q
  have hle := Binary64.div_le_tolerance q
  have hsmall : q / 10 ^ 24 ≤ q / 2 ^ 52 / 4 := by
    rw [div_div]
    exact div_le_div_of_nonneg_left hq (by norm_num) (by norm_num)
  linarith

/-- A conversion moves a decimal by less than its tolerance, or it concerns a number so long that it
is near to a whole one whatever its digits, and gives no zero. -/
theorem abs_size_sub_lt (h : d.toBinary64? = some x) :
    |x.size - d.size| < tolerance d.size ∨ ¬ x.IsZero ∧ NearWhole d.toRat := by
  have hpos := Binary64.tolerance_pos d.size
  cases conversion h with
  | zero hzero hx =>
    left
    have hsize : d.size = 0 := by rw [size, toRat_of_isZero hzero, abs_zero]
    rw [hsize] at hpos ⊢
    rwa [hx, Binary64.size_eq_zero_iff.mpr rfl, sub_zero, abs_zero]
  | plain hscale hx =>
    left
    have hle := Binary64.abs_size_sub_le Nat.one_pos hx
    have hsize : d.size = d.unscaled.natAbs := by
      rw [size_eq, hscale, neg_zero, zpow_zero, mul_one]
    rw [Nat.cast_one, div_one, ← hsize] at hle
    linarith
  | fraction places hscale hx =>
    left
    -- first digits are cut off, then what is left is rounded
    have hle := Binary64.abs_size_sub_le_of_nearestScaled? hx
    obtain ⟨hlow, hhigh⟩ := shortened_bounds d
    have hplaces : (surplusDigits d.unscaled.natAbs : ℤ) - d.scale = -places := by omega
    rw [hplaces, zpow_neg, zpow_natCast, ← div_eq_mul_inv] at hlow hhigh
    have hshort : |(d.keptPart : ℚ) / 10 ^ places - d.size| ≤ d.size / 10 ^ 24 := by
      rwa [abs_sub_comm, abs_of_nonneg (sub_nonneg.mpr hlow)]
    have htriangle := abs_sub_le x.size (d.keptPart / 10 ^ places) d.size
    have hlt := half_tolerance_add_lt d.size_nonneg hlow
    linarith
  | scaled digits power exponent hne hscale hdigits hpower hx =>
    right
    have hten := Binary64.isPositiveWhole_power?_ten hpower
    have hdigits' : ¬ digits.IsZero := by
      refine Binary64.nearest?_not_isZero Nat.one_pos ?_ hdigits
      rw [Nat.cast_one, div_one]
      exact Binary64.leastPositive_le_one.trans (by exact_mod_cast keptPart_pos hne)
    refine ⟨?_, nearWhole_of_scale_le hscale⟩
    exact Binary64.mul?_not_isZero (Binary64.nearest?_isIntegral Nat.one_pos (one_dvd _) hdigits)
      hten.isIntegral hdigits' hten.not_isZero hx

/-- **Only the smallest** decimals are converted to zero. -/
theorem size_lt_of_isZero (h : d.toBinary64? = some x) (hzero : x.IsZero) :
    |d.toRat| < Binary64.leastPositive := by
  rcases abs_size_sub_lt h with hlt | ⟨hne, -⟩
  · by_contra hle
    rw [Binary64.size_eq_zero_iff.mpr hzero, zero_sub, abs_neg, abs_of_nonneg d.size_nonneg] at hlt
    exact absurd (Binary64.tolerance_le (not_lt.mp hle)) (not_le.mpr hlt)
  · exact absurd hzero hne

/-- **Only near to a whole number** is the fractional part of a decimal lost. -/
theorem nearWhole_of_isIntegral (h : d.toBinary64? = some x) (hintegral : x.IsIntegral) :
    NearWhole d.toRat := by
  rcases abs_size_sub_lt h with hlt | ⟨-, hnear⟩
  · obtain ⟨n, hn⟩ := Binary64.exists_size_eq hintegral
    refine nearWhole_abs_iff.mp ⟨n, ?_⟩
    rw [hn, abs_sub_comm] at hlt
    rw [abs_abs]
    exact hlt
  · exact hnear

end Decimal

end Reckoner
