import Mathlib.Algebra.Order.Field.Basic
import Mathlib.Data.Rat.Cast.Order
import Mathlib.Tactic.FieldSimp
import Mathlib.Tactic.Linarith
import Mathlib.Tactic.Positivity
import Mathlib.Tactic.Ring
import Reckoner.Binary64.Rounding

/-!
# The error of rounding to binary64

A fraction is rounded to a whole multiple of a **spacing** that is a power of two. What comes out is that
multiple: the carry into the exponent field is accounted for by the magnitudes themselves
(`unitsOf_carry`), so the absolute value of the result is the rounded number of spacings, times the
spacing (`unitsOf_roundMagnitude`).

* The spacing around a fraction is at most its **tolerance**: the smallest positive number, or the
  `2 ^ 52`nd part of the fraction where that is larger (`spacing_le_tolerance`).
* Rounding to nearest moves a fraction by **half a tolerance** at most (`abs_size_sub_le`). So nothing
  from the smallest positive number on is rounded to zero (`nearest?_not_isZero`).
* Whole numbers stay **whole** (`nearest?_isIntegral`), whether the spacing is finer or coarser than a
  one, and so do their products.
-/

namespace Reckoner.Binary64

variable {x : Binary64} {negative : Bool}

theorem unitsPerOne_pos : 0 < unitsPerOne := by
  rw [unitsPerOne]
  positivity

theorem cast_unitsPerOne_pos : (0 : ℚ) < unitsPerOne := by exact_mod_cast unitsPerOne_pos

/-- Whole numbers of ones are whole numbers. -/
theorem ones_div_unitsPerOne (n : ℕ) : ((n * unitsPerOne : ℕ) : ℚ) / unitsPerOne = n := by
  rw [Nat.cast_mul, mul_div_cancel_right₀ _ cast_unitsPerOne_pos.ne']

/-- The spacing is finer than a one or a multiple of it. -/
theorem two_pow_dvd_or_dvd (step : ℕ) : 2 ^ step ∣ unitsPerOne ∨ unitsPerOne ∣ 2 ^ step := by
  rw [unitsPerOne]
  generalize 1074 = bits
  exact (Nat.le_total step bits).imp (Nat.pow_dvd_pow 2) (Nat.pow_dvd_pow 2)

/-! ## Rounding to a whole number -/

/-- The rounded quotient is the whole part of the quotient or the number after it. -/
theorem roundHalfEven_bounds (numerator denominator : ℕ) :
    numerator / denominator ≤ roundHalfEven numerator denominator ∧
      roundHalfEven numerator denominator ≤ numerator / denominator + 1 := by
  simp only [roundHalfEven]
  split_ifs <;> omega

theorem roundHalfEven_of_dvd {numerator denominator : ℕ} (hpos : 0 < denominator)
    (h : denominator ∣ numerator) :
    roundHalfEven numerator denominator = numerator / denominator := by
  rw [roundHalfEven, Nat.mod_eq_zero_of_dvd h, if_pos hpos]

/-- Rounding to a whole number moves a fraction by one half at most. -/
theorem abs_roundHalfEven_sub_le (numerator : ℕ) {denominator : ℕ} (hpos : 0 < denominator) :
    |(roundHalfEven numerator denominator : ℚ) - numerator / denominator| ≤ 1 / 2 := by
  have hdivision := Nat.div_add_mod' numerator denominator
  have hrest := Nat.mod_lt numerator hpos
  have hbounds : 2 * numerator ≤ 2 * (roundHalfEven numerator denominator * denominator) +
        denominator ∧
      2 * (roundHalfEven numerator denominator * denominator) ≤ 2 * numerator + denominator := by
    simp only [roundHalfEven]
    split_ifs with hlow hhigh
    · omega
    · rw [Nat.add_mul, Nat.one_mul]
      omega
    · rcases Nat.mod_two_eq_zero_or_one (numerator / denominator) with heven | hodd
      · rw [heven, Nat.add_zero]
        omega
      · rw [hodd, Nat.add_mul, Nat.one_mul]
        omega
  have hpos' : (0 : ℚ) < denominator := by exact_mod_cast hpos
  have hlow : (2 : ℚ) * numerator ≤ 2 * (roundHalfEven numerator denominator * denominator) +
      denominator := by exact_mod_cast hbounds.1
  have hhigh : (2 : ℚ) * (roundHalfEven numerator denominator * denominator) ≤
      2 * numerator + denominator := by exact_mod_cast hbounds.2
  rw [sub_div' hpos'.ne', abs_div, abs_of_pos hpos', div_le_iff₀ hpos', abs_le]
  constructor <;> linarith

/-! ## Multiples of the spacing -/

/-- A number of spacings that is long enough for the spacing is what its magnitude stands for, also
where rounding up made it a digit too long. -/
theorem unitsOf_carry {step spacings : ℕ} (hlong : step = 0 ∨ 2 ^ 52 ≤ spacings)
    (hshort : spacings ≤ 2 ^ 53) :
    unitsOf (step * 2 ^ 52 + spacings) = spacings * 2 ^ step := by
  rw [unitsOf]
  by_cases hsubnormal : step * 2 ^ 52 + spacings < 2 ^ 52
  · have hstep : step = 0 := by omega
    rw [if_pos hsubnormal, hstep]
    simp
  · rw [if_neg hsubnormal]
    rcases Nat.lt_or_ge spacings (2 ^ 53) with hlt | hge
    · have hquotient : (step * 2 ^ 52 + spacings) / 2 ^ 52 = step + 1 := by omega
      have hrest : (step * 2 ^ 52 + spacings) % 2 ^ 52 = spacings - 2 ^ 52 := by omega
      rw [hquotient, hrest, Nat.add_sub_cancel, Nat.add_sub_cancel' (by omega)]
    · -- the carry: a power of two of spacings is one of the next spacing
      have hcarry : spacings = 2 ^ 53 := le_antisymm hshort hge
      have hquotient : (step * 2 ^ 52 + spacings) / 2 ^ 52 = step + 2 := by omega
      have hrest : (step * 2 ^ 52 + spacings) % 2 ^ 52 = 0 := by omega
      rw [hquotient, hrest, hcarry, show step + 2 - 1 = step + 1 by omega, Nat.pow_succ 2 step]
      ring

/-- There are less than `2 ^ 53` spacings in a number of whole units. -/
theorem div_spacing_lt (units : ℕ) : units / 2 ^ spacing units < 2 ^ 53 := by
  rw [Nat.div_lt_iff_lt_mul (Nat.two_pow_pos _), ← Nat.pow_add]
  have hlog : units.log2 + 1 ≤ 53 + spacing units := by
    rw [spacing]
    omega
  exact Nat.lt_log2_self.trans_le (Nat.pow_le_pow_right (by decide) hlog)

/-- A spacing of more than a unit divides a number into at least `2 ^ 52`. -/
theorem two_pow_mul_spacing_le {units : ℕ} (h : spacing units ≠ 0) :
    2 ^ 52 * 2 ^ spacing units ≤ units := by
  have hlog : 52 + spacing units = units.log2 := by
    rw [spacing] at h ⊢
    omega
  have hne : units ≠ 0 := by
    rintro rfl
    exact h (by decide)
  rw [← Nat.pow_add, hlog]
  exact Nat.log2_self_le hne

/-- The logarithm of the spacing around a fraction. -/
def spacingAround (numerator denominator : ℕ) : ℕ :=
  spacing (numerator * unitsPerOne / denominator)

/-- **The rounded fraction** is the nearest whole number of spacings. -/
theorem unitsOf_roundMagnitude (numerator denominator : ℕ) :
    unitsOf (roundMagnitude numerator denominator) =
      roundHalfEven (numerator * unitsPerOne) (denominator * 2 ^ spacingAround numerator denominator) *
        2 ^ spacingAround numerator denominator := by
  have hlt := div_spacing_lt (numerator * unitsPerOne / denominator)
  have hbounds := roundHalfEven_bounds (numerator * unitsPerOne)
    (denominator * 2 ^ spacingAround numerator denominator)
  rw [← Nat.div_div_eq_div_mul] at hbounds
  rw [roundMagnitude]
  apply unitsOf_carry
  · rcases Nat.eq_zero_or_pos (spacingAround numerator denominator) with hzero | hpos
    · exact .inl hzero
    · have hle := two_pow_mul_spacing_le hpos.ne'
      rw [← Nat.le_div_iff_mul_le (Nat.two_pow_pos _)] at hle
      exact .inr (hle.trans hbounds.1)
  · exact hbounds.2.trans hlt

/-- What is found by rounding to nearest. -/
theorem nearest?_eq_some {numerator denominator : ℕ}
    (h : nearest? negative numerator denominator = some x) :
    x.negative = negative ∧ x.magnitude = roundMagnitude numerator denominator := by
  rw [nearest?] at h
  split_ifs at h
  cases h
  exact ⟨rfl, rfl⟩

theorem units_of_nearest? {numerator denominator : ℕ}
    (h : nearest? negative numerator denominator = some x) :
    x.units =
      roundHalfEven (numerator * unitsPerOne) (denominator * 2 ^ spacingAround numerator denominator) *
        2 ^ spacingAround numerator denominator := by
  rw [units, (nearest?_eq_some h).2, unitsOf_roundMagnitude]

/-! ## The error -/

/-- The absolute value of a magnitude as a rational number, also past the finite magnitudes. -/
def valueOf (magnitude : ℕ) : ℚ := unitsOf magnitude / unitsPerOne

/-- The absolute value as a rational number. -/
def size (x : Binary64) : ℚ := x.units / unitsPerOne

theorem size_eq_valueOf (x : Binary64) : x.size = valueOf x.magnitude := rfl

/-- The smallest positive number. -/
def leastPositive : ℚ := 1 / unitsPerOne

/-- What the conversion of a number `q ≥ 0` may move it by: the smallest positive number, or the
`2 ^ 52`nd part of `q` where that is larger. -/
def tolerance (q : ℚ) : ℚ := max leastPositive (q / 2 ^ 52)

theorem leastPositive_pos : 0 < leastPositive := by
  rw [leastPositive]
  exact one_div_pos.mpr cast_unitsPerOne_pos

theorem tolerance_pos (q : ℚ) : 0 < tolerance q := lt_max_of_lt_left leastPositive_pos

theorem div_le_tolerance (q : ℚ) : q / 2 ^ 52 ≤ tolerance q := le_max_right _ _

theorem tolerance_mono {p q : ℚ} (h : p ≤ q) : tolerance p ≤ tolerance q :=
  max_le_max_left _ (div_le_div_of_nonneg_right h (by positivity))

/-- The spacing around a fraction is within its tolerance. -/
theorem spacing_le_tolerance (numerator : ℕ) {denominator : ℕ} (hpos : 0 < denominator) :
    (2 : ℚ) ^ spacingAround numerator denominator / unitsPerOne ≤
      tolerance (numerator / denominator) := by
  have hunits := cast_unitsPerOne_pos
  have hpos' : (0 : ℚ) < denominator := by exact_mod_cast hpos
  rcases Nat.eq_zero_or_pos (spacingAround numerator denominator) with hzero | hspacing
  · rw [hzero, pow_zero]
    exact le_max_left _ _
  · have hle := two_pow_mul_spacing_le hspacing.ne'
    rw [Nat.le_div_iff_mul_le hpos] at hle
    have hle' : (2 : ℚ) ^ 52 * 2 ^ spacingAround numerator denominator * denominator ≤
        numerator * unitsPerOne := by exact_mod_cast hle
    refine le_trans ?_ (div_le_tolerance _)
    rw [div_div, div_le_div_iff₀ hunits (by positivity)]
    linarith

/-- The distance of a fraction from a number of spacings, counted in spacings. -/
theorem spacings_sub_eq (k numerator step : ℕ) {denominator : ℕ} (hpos : 0 < denominator) :
    ((k * 2 ^ step : ℕ) : ℚ) / unitsPerOne - numerator / denominator =
      ((k : ℚ) - ((numerator * unitsPerOne : ℕ) : ℚ) / ((denominator * 2 ^ step : ℕ) : ℚ)) *
        (2 ^ step / unitsPerOne) := by
  have hunits := cast_unitsPerOne_pos
  have hpos' : (0 : ℚ) < denominator := by exact_mod_cast hpos
  push_cast
  generalize (unitsPerOne : ℚ) = units at hunits
  field_simp

/-- **Rounding to nearest** moves a fraction by half its tolerance at most, also where it leads past the
finite magnitudes. -/
theorem abs_valueOf_sub_le (numerator : ℕ) {denominator : ℕ} (hpos : 0 < denominator) :
    |valueOf (roundMagnitude numerator denominator) - numerator / denominator| ≤
      tolerance (numerator / denominator) / 2 := by
  have hle := spacing_le_tolerance numerator hpos
  rw [valueOf, unitsOf_roundMagnitude]
  generalize spacingAround numerator denominator = step at hle
  have hspacing : (0 : ℚ) < 2 ^ step / unitsPerOne := div_pos (by positivity) cast_unitsPerOne_pos
  have hround := abs_roundHalfEven_sub_le (numerator * unitsPerOne)
    (Nat.mul_pos hpos (Nat.two_pow_pos step))
  rw [spacings_sub_eq _ _ _ hpos, abs_mul, abs_of_pos hspacing]
  have hhalf := mul_le_mul_of_nonneg_right hround hspacing.le
  linarith

theorem abs_size_sub_le {numerator denominator : ℕ} (hpos : 0 < denominator)
    (h : nearest? negative numerator denominator = some x) :
    |x.size - numerator / denominator| ≤ tolerance (numerator / denominator) / 2 := by
  rw [size_eq_valueOf, (nearest?_eq_some h).2]
  exact abs_valueOf_sub_le numerator hpos

/-! ## Zero -/

theorem units_eq_zero_iff : x.units = 0 ↔ x.IsZero := by
  rw [units, unitsOf]
  split_ifs with hsubnormal
  · rfl
  · have hpos : 0 < (2 ^ 52 + x.magnitude % 2 ^ 52) * 2 ^ (x.magnitude / 2 ^ 52 - 1) := by positivity
    exact iff_of_false hpos.ne' (by omega)

theorem isIntegral_of_isZero (h : x.IsZero) : x.IsIntegral := by
  rw [IsIntegral, units_eq_zero_iff.mpr h, Nat.zero_mod]

theorem size_eq_zero_iff : x.size = 0 ↔ x.IsZero := by
  have hunits := cast_unitsPerOne_pos.ne'
  rw [size, div_eq_zero_iff, or_iff_left hunits, Nat.cast_eq_zero, units_eq_zero_iff]

theorem tolerance_le {q : ℚ} (h : leastPositive ≤ q) : tolerance q ≤ q := by
  have hpos := leastPositive_pos
  exact max_le h (div_le_self (by linarith) (by norm_num))

theorem leastPositive_le_one : leastPositive ≤ 1 := by
  rw [leastPositive]
  have hunits : (1 : ℚ) ≤ unitsPerOne := by exact_mod_cast unitsPerOne_pos
  exact (div_le_one (by linarith)).mpr hunits

/-- What is no smaller than the smallest positive number is not rounded to zero. -/
theorem nearest?_not_isZero {numerator denominator : ℕ} (hpos : 0 < denominator)
    (hlarge : leastPositive ≤ numerator / denominator)
    (h : nearest? negative numerator denominator = some x) : ¬ x.IsZero := by
  intro hzero
  have herror := abs_size_sub_le hpos h
  have hunit := leastPositive_pos
  rw [size_eq_zero_iff.mpr hzero, zero_sub, abs_neg, abs_of_pos (hunit.trans_le hlarge)] at herror
  have hle := tolerance_le hlarge
  linarith

/-! ## Whole numbers -/

/-- A whole number is rounded to a whole number. -/
theorem nearest?_isIntegral {numerator denominator : ℕ} (hpos : 0 < denominator)
    (hwhole : denominator ∣ numerator) (h : nearest? negative numerator denominator = some x) :
    x.IsIntegral := by
  have hunits := units_of_nearest? h
  generalize spacingAround numerator denominator = step at hunits
  rw [IsIntegral, ← Nat.dvd_iff_mod_eq_zero, hunits]
  rcases two_pow_dvd_or_dvd step with hfine | hcoarse
  · -- nothing is rounded
    have hdvd : denominator * 2 ^ step ∣ numerator * unitsPerOne := Nat.mul_dvd_mul hwhole hfine
    obtain ⟨k, rfl⟩ := hwhole
    obtain ⟨l, hl⟩ := hfine
    have hquotient : denominator * k * unitsPerOne / (denominator * 2 ^ step) = k * l := by
      rw [hl]
      apply Nat.div_eq_of_eq_mul_right (Nat.mul_pos hpos (Nat.two_pow_pos step))
      ring
    rw [roundHalfEven_of_dvd (Nat.mul_pos hpos (Nat.two_pow_pos step)) hdvd, hquotient, hl]
    exact ⟨k, by ring⟩
  · exact Dvd.dvd.mul_left hcoarse _

theorem exists_size_eq (h : x.IsIntegral) : ∃ n : ℕ, x.size = n := by
  have hunits := cast_unitsPerOne_pos.ne'
  obtain ⟨n, hn⟩ := Nat.dvd_of_mod_eq_zero h
  refine ⟨n, ?_⟩
  rw [size, hn, Nat.cast_mul, mul_div_cancel_left₀ _ hunits]

/-! ## Products -/

theorem mul?_negative {y z : Binary64} (h : x.mul? y = some z) :
    z.negative = (x.negative ^^ y.negative) := (nearest?_eq_some h).1

theorem mul?_isIntegral {y z : Binary64} (hx : x.IsIntegral) (hy : y.IsIntegral)
    (h : x.mul? y = some z) : z.IsIntegral :=
  nearest?_isIntegral (Nat.mul_pos unitsPerOne_pos unitsPerOne_pos)
    (Nat.mul_dvd_mul (Nat.dvd_of_mod_eq_zero hx) (Nat.dvd_of_mod_eq_zero hy)) h

/-- What is rounded in a product is the product of the sizes. -/
theorem units_mul_div (x y : Binary64) :
    ((x.units * y.units : ℕ) : ℚ) / ((unitsPerOne * unitsPerOne : ℕ) : ℚ) = x.size * y.size := by
  rw [size, size, Nat.cast_mul, Nat.cast_mul, mul_div_mul_comm]

/-- The product of whole numbers is zero only if one of them is. -/
theorem mul?_not_isZero {y z : Binary64} (hx : x.IsIntegral) (hy : y.IsIntegral) (hx' : ¬ x.IsZero)
    (hy' : ¬ y.IsZero) (h : x.mul? y = some z) : ¬ z.IsZero := by
  have hone {w : Binary64} (hw : w.IsIntegral) (hw' : ¬ w.IsZero) : 1 ≤ w.size := by
    obtain ⟨n, hn⟩ := exists_size_eq hw
    have hne : n ≠ 0 := by
      rintro rfl
      exact hw' (size_eq_zero_iff.mp (by simpa using hn))
    rw [hn]
    exact_mod_cast Nat.one_le_iff_ne_zero.mpr hne
  refine nearest?_not_isZero (Nat.mul_pos unitsPerOne_pos unitsPerOne_pos) ?_ h
  rw [units_mul_div]
  exact leastPositive_le_one.trans (one_le_mul_of_one_le_of_one_le (hone hx hx') (hone hy hy'))

end Reckoner.Binary64
