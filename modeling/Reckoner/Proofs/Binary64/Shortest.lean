import Mathlib.Data.Nat.Digits.Defs
import Reckoner.Binary64.Shortest
import Reckoner.Proofs.Binary64.Conversion

/-!
# Shortest decimals lead back

A number is named by the decimal that `Binary64.toDecimal` finds, and this is a good name for it: conversion
leads **back** to the number, and **no decimal with fewer** significant digits is rounded to it
(`shortest_decimal_roundTrip`).

* One step of the search is complete: if any point of a grid is rounded to a magnitude, then one of the
  two around it is (`not_isNearest_of_neighbour?`), since the fractions that are rounded to a magnitude
  are an interval around it.
* So the search ends with a point on the **first** grid that has one (`IsFirst`, `isFirst_searchFrom`). The
  grids are nested, so nothing more is needed than that the next coarser one has none.
* If a point had fewer digits, there would be a power of ten between it and the one found, which is on a
  coarser grid and rounded to the same number (`IsFirst.length_le`).
* A grid that is finer than half the distance to the next number has a point to find, so the search does
  not go on for many digits (`IsFirst.lt`). Conversion therefore cuts off none of them and rounds once.
-/

namespace Reckoner

namespace Binary64

open Decimal (ten_zpow_pos)

variable {m k level : ℕ} {e : ℤ} {x : Binary64}

/-! ## Grids -/

theorem tenToThe_snd_pos (e : ℤ) : 0 < (tenToThe e).2 := Nat.pow_pos (by decide)

theorem tenToThe_fst_pos (e : ℤ) : 0 < (tenToThe e).1 := Nat.pow_pos (by decide)

/-- The two parts of a power of ten are its numerator and its denominator. -/
theorem tenToThe_fst_div_snd (e : ℤ) : ((tenToThe e).1 : ℚ) / (tenToThe e).2 = 10 ^ e := by
  simp only [tenToThe, Nat.cast_pow, Nat.cast_ofNat]
  rw [← zpow_natCast, ← zpow_natCast, ← zpow_sub₀ (by norm_num)]
  congr 1
  omega

/-- A point rounds back if the magnitude is the nearest one. -/
theorem roundsBack_iff {point : ℕ} : RoundsBack m e point ↔ IsNearest m (point * 10 ^ e) := by
  have hnearest := isNearest_roundMagnitude (point * (tenToThe e).1) (tenToThe_snd_pos e)
  rw [Nat.cast_mul, mul_div_assoc, tenToThe_fst_div_snd] at hnearest
  constructor
  · intro h
    rwa [h] at hnearest
  · exact hnearest.unique

/-- A magnitude is at its lower point or between that and the next one. -/
theorem lowerPoint_bounds (m : ℕ) (e : ℤ) :
    lowerPoint m e * (10 : ℚ) ^ e ≤ valueOf m ∧
      valueOf m < (lowerPoint m e + 1 : ℕ) * (10 : ℚ) ^ e := by
  have hgrid : 0 < unitsPerOne * (tenToThe e).1 := Nat.mul_pos unitsPerOne_pos (tenToThe_fst_pos e)
  have hlow := Nat.div_mul_le_self (unitsOf m * (tenToThe e).2) (unitsPerOne * (tenToThe e).1)
  have hhigh := Nat.lt_mul_of_div_lt (Nat.lt_succ_self (lowerPoint m e)) hgrid
  change lowerPoint m e * _ ≤ _ at hlow
  have hunits := cast_unitsPerOne_pos
  have hsnd : (0 : ℚ) < (tenToThe e).2 := by exact_mod_cast tenToThe_snd_pos e
  rw [← Nat.cast_le (α := ℚ), Nat.cast_mul, Nat.cast_mul, Nat.cast_mul] at hlow
  rw [← Nat.cast_lt (α := ℚ), Nat.cast_mul, Nat.cast_mul, Nat.cast_mul] at hhigh
  rw [← tenToThe_fst_div_snd, valueOf, ← mul_div_assoc, ← mul_div_assoc,
    div_le_div_iff₀ hsnd hunits, div_lt_div_iff₀ hunits hsnd]
  constructor <;> linarith

/-- The neighbour that is found is rounded to the magnitude, and it is the next point at most. -/
theorem isNearest_of_neighbour? (h : neighbour? m e = some k) :
    IsNearest m (k * 10 ^ e) ∧ k * (10 : ℚ) ^ e ≤ valueOf m + 10 ^ e := by
  have hunit := ten_zpow_pos e
  obtain ⟨hlow, -⟩ := lowerPoint_bounds m e
  rw [← roundsBack_iff]
  simp only [neighbour?] at h
  split_ifs at h with hlower hupper
  · cases h
    exact ⟨hlower.1, by linarith⟩
  · cases h
    push_cast
    exact ⟨hupper, by linarith⟩

/-- **If no neighbour** is rounded to the magnitude, no point of the grid is. -/
theorem not_isNearest_of_neighbour? (h : neighbour? m e = none) (point : ℕ) :
    ¬ IsNearest m (point * 10 ^ e) := by
  have hunit := ten_zpow_pos e
  obtain ⟨hlow, hhigh⟩ := lowerPoint_bounds m e
  simp only [neighbour?] at h
  split_ifs at h with hlower hupper
  have hlower' : ¬ RoundsBack m e (lowerPoint m e) := fun hback => hlower ⟨hback, .inr hupper⟩
  rw [roundsBack_iff] at hlower' hupper
  intro hpoint
  rcases Nat.lt_or_ge (lowerPoint m e) point with hlt | hge
  · have hle : ((lowerPoint m e + 1 : ℕ) : ℚ) * 10 ^ e ≤ point * 10 ^ e :=
      mul_le_mul_of_nonneg_right (by exact_mod_cast hlt) hunit.le
    exact hupper ((isNearest_valueOf m).between hpoint hhigh.le hle)
  · have hle : (point : ℚ) * 10 ^ e ≤ lowerPoint m e * 10 ^ e :=
      mul_le_mul_of_nonneg_right (by exact_mod_cast hge) hunit.le
    exact hlower' (hpoint.between (isNearest_valueOf m) hle hlow)

/-! ## The first grid with a point to find -/

/-- The digits are a point that is rounded to the magnitude, on the coarsest grid from `start` on down
that has one. -/
structure IsFirst (m : ℕ) (start : ℤ) (k : ℕ) (e : ℤ) : Prop where
  /-- the point is rounded to the magnitude -/
  isNearest : IsNearest m (k * 10 ^ e)
  /-- it is the next point after the magnitude at most -/
  le_add : k * (10 : ℚ) ^ e ≤ valueOf m + 10 ^ e
  /-- the search has not started below the grid -/
  le_start : e ≤ start
  /-- there is no need for a finer one than this -/
  finest_le : -(finestGrid : ℤ) ≤ e
  /-- the next coarser grid has no point that is rounded to the magnitude -/
  coarser : e < start → ∀ point : ℕ, ¬ IsNearest m (point * 10 ^ (e + 1))

/-- Every magnitude stands for a point of the finest grid. -/
theorem finest_eq (m : ℕ) :
    ((unitsOf m * 5 ^ finestGrid : ℕ) : ℚ) * 10 ^ (-(finestGrid : ℤ)) = valueOf m := by
  have hten : (10 : ℚ) ^ finestGrid = 5 ^ finestGrid * 2 ^ finestGrid := by
    rw [← mul_pow]
    norm_num
  rw [valueOf, unitsPerOne, zpow_neg, zpow_natCast, hten, ← finestGrid]
  push_cast
  field_simp

/-- **The search** ends at the first grid that has such a point. -/
theorem isFirst_searchFrom
    (h : searchFrom (neighbour? m) (unitsOf m * 5 ^ finestGrid) level = (k, e)) :
    IsFirst m (level - finestGrid) k e := by
  induction level with
  | zero =>
    rw [searchFrom, Prod.mk.injEq] at h
    obtain ⟨rfl, rfl⟩ := h
    refine ⟨?_, ?_, by omega, le_rfl, by omega⟩
    · rw [finest_eq]
      exact isNearest_valueOf m
    · rw [finest_eq]
      linarith [ten_zpow_pos (-(finestGrid : ℤ))]
  | succ level ih =>
    rw [searchFrom] at h
    cases hfound : neighbour? m (level + 1 - finestGrid) with
    | some found =>
      rw [hfound, Prod.mk.injEq] at h
      obtain ⟨rfl, rfl⟩ := h
      obtain ⟨hnearest, hle⟩ := isNearest_of_neighbour? hfound
      exact ⟨hnearest, hle, by omega, by omega, by omega⟩
    | none =>
      rw [hfound] at h
      have hfirst := ih h
      have hle := hfirst.le_start
      refine ⟨hfirst.isNearest, hfirst.le_add, by omega, hfirst.finest_le, fun _ => ?_⟩
      rcases hle.lt_or_eq with hlt | heq
      · exact hfirst.coarser hlt
      · rw [heq, show (level : ℤ) - finestGrid + 1 = level + 1 - finestGrid by ring]
        exact not_isNearest_of_neighbour? hfound

variable {start : ℤ}

/-- The grids are nested, so no coarser one has a point that is rounded to the magnitude. -/
theorem IsFirst.not_isNearest (h : IsFirst m start k e) (hstart : e < start) {f : ℤ} (hf : e < f)
    (point : ℕ) : ¬ IsNearest m (point * 10 ^ f) := by
  have hpoint : (point : ℚ) * 10 ^ f = (point * 10 ^ (f - e - 1).toNat : ℕ) * 10 ^ (e + 1) := by
    have hzeros : (((f - e - 1).toNat : ℕ) : ℤ) = f - e - 1 := Int.toNat_of_nonneg (by omega)
    push_cast
    rw [mul_assoc, ← zpow_natCast, hzeros, ← zpow_add₀ (by norm_num)]
    congr 2
    ring
  rw [hpoint]
  exact h.coarser hstart _

/-- **No fewer digits** are rounded to the magnitude, wherever the point stands. -/
theorem IsFirst.length_le (h : IsFirst m start k e) (hlarge : valueOf m < 10 ^ start) {point : ℕ}
    {f : ℤ} (hpoint : IsNearest m (point * 10 ^ f)) :
    (Nat.toDigits 10 k).length ≤ (Nat.toDigits 10 point).length := by
  have hpos : 0 < (Nat.toDigits 10 point).length := Nat.length_toDigits_pos
  have hunit := ten_zpow_pos e
  rw [Nat.length_toDigits_le_iff (by decide) hpos]
  have hlt := Decimal.lt_ten_pow_length point
  generalize (Nat.toDigits 10 point).length = length at hpos hlt ⊢
  obtain ⟨length, rfl⟩ := Nat.exists_eq_succ_of_ne_zero hpos.ne'
  rcases h.le_start.lt_or_eq with hstart | hstart
  · by_contra hle
    -- the power of ten between the two points is on the next coarser grid
    have hf : f ≤ e := not_lt.mp fun hf => h.not_isNearest hstart hf point hpoint
    have hcoarse : ((10 ^ length : ℕ) : ℚ) * 10 ^ (e + 1) = (10 ^ (length + 1) : ℕ) * 10 ^ e := by
      rw [zpow_add₀ (by norm_num), zpow_one]
      push_cast
      ring
    refine h.coarser hstart (10 ^ length) ?_
    rw [hcoarse]
    refine hpoint.between h.isNearest ?_ ?_
    · exact mul_le_mul (by exact_mod_cast hlt.le) (zpow_le_zpow_right₀ (by norm_num) hf)
        (ten_zpow_pos f).le (by positivity)
    · exact mul_le_mul_of_nonneg_right (by exact_mod_cast not_lt.mp hle) hunit.le
  · -- the grid is coarser than the magnitude itself
    have hone : (k : ℚ) < 2 := by
      have hle := h.le_add
      rw [← hstart] at hlarge
      refine lt_of_mul_lt_mul_right (hle.trans_lt ?_) hunit.le
      linarith
    have hten : 10 ^ 1 ≤ 10 ^ (length + 1) := Nat.pow_le_pow_right (by decide) (by omega)
    have hk : k < 2 := by exact_mod_cast hone
    omega

/-- **There are not many digits**, since a grid that is fine enough always has a point to find. -/
theorem IsFirst.lt (h : IsFirst m start k e) (hstart : e < start) : k < 10 ^ 43 := by
  have hunit := ten_zpow_pos e
  have hcoarse : (10 : ℚ) ^ (e + 1) = 10 * 10 ^ e := by
    rw [zpow_add₀ (by norm_num), zpow_one]
    ring
  obtain ⟨hlow, hhigh⟩ := lowerPoint_bounds m (e + 1)
  have hgap : valueOf (m + 1) - valueOf m ≤ 2 * 10 ^ (e + 1) := by
    by_contra hlt
    refine h.coarser hstart (lowerPoint m (e + 1) + 1) (isNearest_of_sub_lt hhigh.le ?_)
    push_cast
    linarith
  have hvalue := valueOf_le_gap m
  have hle := h.le_add
  rw [hcoarse] at hgap
  have hk : (k : ℚ) * 10 ^ e ≤ (2 ^ 53 * 20 + 1 : ℕ) * 10 ^ e := by
    push_cast
    linarith
  have hk' : k ≤ 2 ^ 53 * 20 + 1 := by exact_mod_cast le_of_mul_le_mul_right hk hunit
  omega

/-- The search starts at a grid that is coarser than the magnitude. -/
theorem isFirst_of_shortestDigits (h : shortestDigits m = (k, e)) :
    ∃ start : ℕ, 0 < start ∧ valueOf m < 10 ^ (start : ℤ) ∧ IsFirst m start k e := by
  refine ⟨(Nat.toDigits 10 (unitsOf m / unitsPerOne)).length, Nat.length_toDigits_pos, ?_, ?_⟩
  · have hlt := Decimal.lt_ten_pow_length (unitsOf m / unitsPerOne)
    rw [Nat.div_lt_iff_lt_mul unitsPerOne_pos] at hlt
    rw [valueOf, div_lt_iff₀ cast_unitsPerOne_pos, zpow_natCast]
    exact_mod_cast hlt
  · have hfirst := isFirst_searchFrom h
    rwa [Nat.cast_add, add_sub_cancel_right] at hfirst

end Binary64

/-! ## Significant digits -/

namespace Decimal

variable {d : Decimal} {k : ℕ} {e : ℤ}

/-- How many digits a decimal has, not counting zeros at its end. -/
def significantDigits (d : Decimal) : ℕ := (Nat.toDigits 10 d.stripZeros.unscaled.natAbs).length

theorem stripZeros_mod_ne_zero (h : ¬ d.IsZero) : d.stripZeros.unscaled % 10 ≠ 0 := by
  fun_induction stripZeros d with
  | case1 d hzero => exact absurd hzero h
  | case2 d hne hdvd ih => exact ih (by simp only [IsZero]; omega)
  | case3 d hne hdvd => exact hdvd

theorem size_stripZeros (d : Decimal) :
    d.size = d.stripZeros.unscaled.natAbs * (10 : ℚ) ^ (-d.stripZeros.scale) := by
  rw [← size_eq, size, size, toRat_stripZeros]

/-- In whatever way the size of a decimal is written, it takes its significant digits. -/
theorem significantDigits_le (h : d.size = k * 10 ^ e) :
    d.significantDigits ≤ (Nat.toDigits 10 k).length := by
  rw [significantDigits, Nat.length_toDigits_le_iff (by decide) Nat.length_toDigits_pos]
  refine lt_of_le_of_lt ?_ (lt_ten_pow_length k)
  by_cases hzero : d.IsZero
  · rw [stripZeros, if_pos hzero]
    exact Nat.zero_le k
  have hmod := stripZeros_mod_ne_zero hzero
  rw [size_stripZeros] at h
  generalize d.stripZeros = s at h hmod
  rcases lt_or_ge (-s.scale) e with hlt | hge
  · -- the stripped digits would end in zeros
    exfalso
    obtain ⟨zeros, hzeros⟩ := Int.eq_ofNat_of_zero_le (show 0 ≤ e + s.scale - 1 by omega)
    have he : e = (zeros + 1 : ℕ) + -s.scale := by push_cast; omega
    rw [he, zpow_add₀ (by norm_num), zpow_natCast, ← mul_assoc,
      mul_left_inj' (ten_zpow_ne_zero _)] at h
    have hdigits : s.unscaled.natAbs = k * 10 ^ (zeros + 1) := by exact_mod_cast h
    rw [pow_succ, ← mul_assoc] at hdigits
    generalize k * 10 ^ zeros = rest at hdigits
    omega
  · obtain ⟨zeros, hzeros⟩ := Int.eq_ofNat_of_zero_le (show 0 ≤ -s.scale - e by omega)
    have he : -s.scale = zeros + e := by omega
    rw [he, zpow_add₀ (by norm_num), zpow_natCast, ← mul_assoc,
      mul_left_inj' (ten_zpow_ne_zero _)] at h
    have hdigits : s.unscaled.natAbs * 10 ^ zeros = k := by exact_mod_cast h
    rw [← hdigits]
    exact Nat.le_mul_of_pos_right _ (by positivity)

end Decimal

/-! ## There and back -/

namespace Binary64

variable {x : Binary64} {k : ℕ} {e : ℤ}

theorem toDecimal_of_isZero (h : x.IsZero) : x.toDecimal = ⟨0, 0⟩ := if_pos h

theorem toDecimal_eq (h : ¬ x.IsZero) (hdigits : shortestDigits x.magnitude = (k, e)) :
    x.toDecimal = ⟨if x.negative then -(k * 10 ^ e.toNat : ℕ) else (k * 10 ^ e.toNat : ℕ),
      (-e).toNat⟩ := by
  rw [toDecimal, if_neg h, hdigits]
  push_cast
  rfl

theorem toDecimal_natAbs (h : ¬ x.IsZero) (hdigits : shortestDigits x.magnitude = (k, e)) :
    x.toDecimal.unscaled.natAbs = k * 10 ^ e.toNat := by
  rw [toDecimal_eq h hdigits]
  split
  · rw [Int.natAbs_neg, Int.natAbs_natCast]
  · rw [Int.natAbs_natCast]

/-- The decimal has the size of the point that was found. -/
theorem size_toDecimal (h : ¬ x.IsZero) (hdigits : shortestDigits x.magnitude = (k, e)) :
    x.toDecimal.size = k * 10 ^ e := by
  have he : (e.toNat : ℤ) + -((-e).toNat : ℤ) = e := by omega
  rw [Decimal.size_eq, toDecimal_natAbs h hdigits, toDecimal_eq h hdigits, Nat.cast_mul, Nat.cast_pow,
    Nat.cast_ofNat, mul_assoc, ← zpow_natCast, ← zpow_add₀ (by norm_num), he]

/-- What is rounded to a number other than zero is not zero. -/
theorem digits_pos (h : ¬ x.IsZero) (hnearest : IsNearest x.magnitude (k * 10 ^ e)) : 0 < k := by
  refine Nat.pos_of_ne_zero ?_
  rintro rfl
  rw [Nat.cast_zero, zero_mul] at hnearest
  exact h (hnearest.unique (isNearest_zero (by linarith [leastPositive_pos])))

/-- The number is what its shortest decimal is rounded to. -/
theorem roundsTo_toDecimal (h : ¬ x.IsZero) : RoundsTo x.toDecimal.toRat (some x) := by
  obtain ⟨⟨k, e⟩, hdigits⟩ : ∃ digits, shortestDigits x.magnitude = digits := ⟨_, rfl⟩
  obtain ⟨start, -, -, hfirst⟩ := isFirst_of_shortestDigits hdigits
  have hnearest := hfirst.isNearest
  have hpos : 0 < k * 10 ^ e.toNat := Nat.mul_pos (digits_pos h hnearest) (by positivity)
  have hsign : decide (x.toDecimal.toRat < 0) = x.negative := by
    rw [Bool.eq_iff_iff, decide_eq_true_iff, Decimal.toRat_neg_iff, toDecimal_eq h hdigits]
    simp only [Decimal.IsNegative]
    split
    · exact iff_of_true (by omega) ‹_›
    · exact iff_of_false (by omega) ‹_›
  refine ⟨x.magnitude, ?_, ?_⟩
  · rw [← size_toDecimal h hdigits] at hnearest
    exact hnearest
  · rw [hsign, ofMagnitude?_self]

/-- **There and back**: the shortest decimal of a number is converted to the number. -/
theorem toBinary64?_toDecimal (h : ¬ x.IsZero) : x.toDecimal.toBinary64? = some x := by
  obtain ⟨⟨k, e⟩, hdigits⟩ : ∃ digits, shortestDigits x.magnitude = digits := ⟨_, rfl⟩
  obtain ⟨start, hstart, -, hfirst⟩ := isFirst_of_shortestDigits hdigits
  have hscale : x.toDecimal.scale = (-e).toNat := by rw [toDecimal_eq h hdigits]
  have hfinest : (-e).toNat ≤ finestGrid := by
    have hle := hfirst.finest_le
    omega
  -- no digit is cut off
  have hkept : x.toDecimal.kept = x.toDecimal := by
    rcases lt_or_ge e 0 with hneg | hnonneg
    · apply Decimal.kept_eq_self
      rw [toDecimal_natAbs h hdigits, Int.toNat_of_nonpos hneg.le, pow_zero, mul_one]
      exact hfirst.lt (by omega)
    · exact Decimal.kept_of_scale_eq_zero (by omega)
  have honce : x.toDecimal.RoundedOnce := by
    rw [finestGrid] at hfinest
    refine .inr ⟨?_, .inl ?_⟩
    · rw [hkept]
      omega
    · rw [hkept]
      omega
  have hrounds := Decimal.roundsTo_kept honce
  rw [hkept] at hrounds
  exact hrounds.unique (roundsTo_toDecimal h)

/-- No decimal that is rounded to a number has fewer significant digits than its shortest decimal. -/
theorem significantDigits_toDecimal_le {d : Decimal} (h : RoundsTo d.toRat (some x)) :
    x.toDecimal.significantDigits ≤ d.significantDigits := by
  by_cases hzero : x.IsZero
  · have hsize : x.toDecimal.size = (0 : ℕ) * 10 ^ (0 : ℤ) := by
      rw [toDecimal_of_isZero hzero, Decimal.size_eq]
      simp
    exact (Decimal.significantDigits_le hsize).trans Nat.length_toDigits_pos
  obtain ⟨⟨k, e⟩, hdigits⟩ : ∃ digits, shortestDigits x.magnitude = digits := ⟨_, rfl⟩
  obtain ⟨start, -, hlarge, hfirst⟩ := isFirst_of_shortestDigits hdigits
  have hnearest := h.isNearest
  rw [← Decimal.size, Decimal.size_stripZeros] at hnearest
  exact (Decimal.significantDigits_le (size_toDecimal hzero hdigits)).trans
    (hfirst.length_le hlarge hnearest)

/-! ## Bit patterns -/

theorem ofBits?_eq_some {bits : UInt64} (h : ofBits? bits = some x) :
    x.negative = decide (2 ^ 63 ≤ bits.toNat) ∧ x.magnitude = bits.toNat % 2 ^ 63 := by
  rw [ofBits?] at h
  split_ifs at h
  cases h
  exact ⟨rfl, rfl⟩

/-- A number keeps its bit pattern. -/
theorem toBits_of_ofBits? {bits : UInt64} (h : ofBits? bits = some x) : x.toBits = bits := by
  obtain ⟨hsign, hmagnitude⟩ := ofBits?_eq_some h
  have hlt := bits.toNat_lt
  rw [← UInt64.toNat_inj, toBits, UInt64.toNat_ofNat', hsign, hmagnitude]
  simp only [decide_eq_true_eq]
  split_ifs <;> omega

/-- All patterns are those of a number, but for the infinite numbers and the results that are no number. -/
theorem exists_ofBits?_eq {bits : UInt64} (h : bits.toNat / 2 ^ 52 % 2 ^ 11 ≠ 2047) :
    ∃ x, ofBits? bits = some x := by
  have hlt := bits.toNat_lt
  have hfinite : bits.toNat % 2 ^ 63 < overflow := by
    rw [overflow]
    omega
  exact ⟨_, dif_pos hfinite⟩

/-- The pattern leads back to itself. Both zeros have the decimal of the positive one. -/
theorem toBits_toBinary64?_toDecimal {bits : UInt64} (h : ofBits? bits = some x) :
    x.toDecimal.toBinary64?.map toBits = some (if bits = 0x8000000000000000 then 0 else bits) := by
  have hmagnitude := (ofBits?_eq_some h).2
  by_cases hzero : x.IsZero
  · have hresult : (⟨0, 0⟩ : Decimal).toBinary64? = some zero := Decimal.toBinary64?_of_isZero rfl
    have hbits : bits = 0 ∨ bits = 0x8000000000000000 := by
      have hlt := bits.toNat_lt
      rw [← UInt64.toNat_inj, ← UInt64.toNat_inj, UInt64.toNat_zero,
        show (0x8000000000000000 : UInt64).toNat = 2 ^ 63 from rfl]
      omega
    rw [toDecimal_of_isZero hzero, hresult]
    rcases hbits with rfl | rfl <;> rfl
  · have hne : bits ≠ 0x8000000000000000 := by
      rintro rfl
      exact hzero hmagnitude
    rw [toBinary64?_toDecimal hzero, if_neg hne, Option.map_some, toBits_of_ofBits? h]

/-- **Shortest decimals** lead back. Every finite bit pattern has a decimal. It is converted to that pattern,
but for the negative zero, which becomes the positive one, and no decimal that is rounded to the number has
fewer significant digits. -/
theorem shortest_decimal_roundTrip (bits : UInt64)
    (hfinite : bits.toNat / 2 ^ 52 % 2 ^ 11 ≠ 2047) :
    ∃ d, (ofBits? bits).map toDecimal = some d ∧
      d.toBinary64?.map toBits = some (if bits = 0x8000000000000000 then 0 else bits) ∧
      ∀ d' : Decimal, RoundsTo d'.toRat (ofBits? bits) →
        d.significantDigits ≤ d'.significantDigits := by
  obtain ⟨x, hx⟩ := exists_ofBits?_eq hfinite
  rw [hx]
  exact ⟨x.toDecimal, rfl, toBits_toBinary64?_toDecimal hx,
    fun d' hd' => significantDigits_toDecimal_le hd'⟩

/-- One tenth is named by a single digit, although the number nearest to it is another fraction. -/
theorem shortest_decimal_roundTrip_tenth :
    (0x3fb999999999999a : UInt64).toNat / 2 ^ 52 % 2 ^ 11 ≠ 2047 ∧
      (ofBits? 0x3fb999999999999a).map toDecimal = some ⟨1, 1⟩ ∧
      (⟨1, 1⟩ : Decimal).toBinary64?.map toBits = some 0x3fb999999999999a ∧
      ∀ d' : Decimal, RoundsTo d'.toRat (ofBits? 0x3fb999999999999a) →
        (⟨1, 1⟩ : Decimal).significantDigits ≤ d'.significantDigits := by
  have hdecimal : (ofBits? 0x3fb999999999999a).map toDecimal = some ⟨1, 1⟩ := by decide +kernel
  obtain ⟨d, hd, hback, hshortest⟩ := shortest_decimal_roundTrip 0x3fb999999999999a (by decide)
  obtain rfl : (⟨1, 1⟩ : Decimal) = d := Option.some.inj (hdecimal.symm.trans hd)
  exact ⟨by decide, hdecimal, hback, hshortest⟩

end Binary64

end Reckoner
