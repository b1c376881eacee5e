import Mathlib.Data.Rat.Floor
import Mathlib.Tactic.FieldSimp
import Mathlib.Tactic.Linarith
import Mathlib.Tactic.Positivity
import Mathlib.Tactic.Ring
import Reckoner.Decimal.Basic

/-!
# Decimals as rational numbers

A decimal denotes the rational number `unscaled · 10⁻ˢᶜᵃˡᵉ` (`Decimal.toRat`). Different decimals denote
one number, and the operations on decimals choose among them in their own ways: sums with zero are padded,
products with a written one are stripped, and other operands are brought to a common scale. None of
this changes **what is denoted**.

* Padding, stripping and alignment keep the number (`toRat_pad`, `toRat_stripZeros`,
  `cast_unscaledAt`).
* Opposites, absolute values, sums, differences and products are exact, and the remainder is that of
  the truncated quotient (`toRat_rem`).
* Equality by value is equality of the numbers denoted (`sameValue_iff`).
-/

namespace Reckoner.Decimal

/-- The number that a decimal denotes. -/
def toRat (d : Decimal) : ℚ := d.unscaled * (10 : ℚ) ^ (-d.scale)

/-! ## One number in several notations -/

theorem ten_zpow_ne_zero (n : ℤ) : (10 : ℚ) ^ n ≠ 0 := zpow_ne_zero n (by norm_num)

theorem ten_zpow_pos (n : ℤ) : (0 : ℚ) < (10 : ℚ) ^ n := zpow_pos (by norm_num) n

theorem toRat_mk (unscaled scale : ℤ) : toRat ⟨unscaled, scale⟩ = unscaled * (10 : ℚ) ^ (-scale) :=
  rfl

theorem toRat_eq_zero_iff {d : Decimal} : d.toRat = 0 ↔ d.IsZero := by
  simp [toRat, IsZero, ten_zpow_ne_zero]

theorem toRat_of_isZero {d : Decimal} (h : d.IsZero) : d.toRat = 0 := toRat_eq_zero_iff.mpr h

/-- Zeros at the end of a decimal denote nothing. -/
@[simp] theorem toRat_pad (d : Decimal) (digits : Nat) : (d.pad digits).toRat = d.toRat := by
  have hscale : (10 : ℚ) ^ (-(d.scale + digits)) * 10 ^ digits = (10 : ℚ) ^ (-d.scale) := by
    rw [← zpow_natCast, ← zpow_add₀ (by norm_num)]
    congr 1
    ring
  rw [pad, toRat_mk, toRat, ← hscale]
  push_cast
  ring

/-- The digits at a finer scale count units of that scale. -/
theorem cast_unscaledAt {d : Decimal} {scale : ℤ} (h : d.scale ≤ scale) :
    (d.unscaledAt scale : ℚ) = d.toRat * (10 : ℚ) ^ scale := by
  have hdigits : ((scale - d.scale).toNat : ℤ) = scale - d.scale := Int.toNat_of_nonneg (by omega)
  have hscale : (10 : ℚ) ^ (scale - d.scale).toNat = (10 : ℚ) ^ (-d.scale) * (10 : ℚ) ^ scale := by
    rw [← zpow_natCast, hdigits, ← zpow_add₀ (by norm_num)]
    congr 1
    ring
  rw [unscaledAt, toRat, mul_assoc, ← hscale]
  push_cast
  ring

theorem toRat_mk_unscaledAt {d : Decimal} {scale : ℤ} (h : d.scale ≤ scale) :
    toRat ⟨d.unscaledAt scale, scale⟩ = d.toRat := by
  rw [toRat_mk, cast_unscaledAt h, mul_assoc, ← zpow_add₀ (by norm_num), add_neg_cancel, zpow_zero,
    mul_one]

/-- Trailing zeros denote nothing. -/
@[simp] theorem toRat_stripZeros (d : Decimal) : d.stripZeros.toRat = d.toRat := by
  fun_induction stripZeros d with
  | case1 d hzero => simp [toRat, hzero]
  | case2 d hne hdvd ih =>
    -- what the digits lose the scale gains
    have hten : d.unscaled = d.unscaled / 10 * 10 := by omega
    rw [ih, toRat_mk, toRat]
    conv_rhs => rw [hten]
    rw [show -(d.scale - 1) = -d.scale + 1 by ring, zpow_add₀ (by norm_num)]
    push_cast
    ring
  | case3 d hne hdvd => rfl

/-- **Equality by value** is equality of the numbers that are denoted. -/
theorem sameValue_iff {a b : Decimal} : a.sameValue b ↔ a.toRat = b.toRat := by
  have ha := cast_unscaledAt (le_max_left a.scale b.scale)
  have hb := cast_unscaledAt (le_max_right a.scale b.scale)
  rw [sameValue, decide_eq_true_eq, commonScale, ← Int.cast_inj (α := ℚ), ha, hb]
  exact mul_left_inj' (ten_zpow_ne_zero _)

/-! ## Exact operations -/

@[simp] theorem toRat_neg (d : Decimal) : (-d).toRat = -d.toRat := by
  show toRat ⟨-d.unscaled, d.scale⟩ = _
  rw [toRat_mk, toRat]
  push_cast
  ring

@[simp] theorem toRat_abs (d : Decimal) : d.abs.toRat = |d.toRat| := by
  rw [toRat, toRat, abs_mul, abs_of_pos (ten_zpow_pos _), abs]
  push_cast
  rfl

theorem toRat_add_of_common (a b : Decimal) :
    toRat ⟨a.unscaledAt (commonScale a b) + b.unscaledAt (commonScale a b), commonScale a b⟩ =
      a.toRat + b.toRat := by
  have ha := toRat_mk_unscaledAt (le_max_left a.scale b.scale)
  have hb := toRat_mk_unscaledAt (le_max_right a.scale b.scale)
  rw [toRat_mk] at ha hb ⊢
  rw [commonScale, ← ha, ← hb]
  push_cast
  ring

/-- A sum is exact, also where it keeps one of its operands because the other one is zero. -/
@[simp] theorem toRat_add (a b : Decimal) : (a + b).toRat = a.toRat + b.toRat := by
  show (add a b).toRat = _
  rw [add]
  split_ifs with hb ha
  · rw [addZero, toRat_pad, toRat_of_isZero hb, add_zero]
  · rw [addZero, toRat_pad, toRat_of_isZero ha, zero_add]
  · exact toRat_add_of_common a b

@[simp] theorem toRat_sub (a b : Decimal) : (a - b).toRat = a.toRat - b.toRat := by
  have ha := toRat_mk_unscaledAt (le_max_left a.scale b.scale)
  have hb := toRat_mk_unscaledAt (le_max_right a.scale b.scale)
  show toRat ⟨a.unscaledAt (commonScale a b) - b.unscaledAt (commonScale a b), commonScale a b⟩ = _
  rw [toRat_mk] at ha hb ⊢
  rw [commonScale, ← ha, ← hb]
  push_cast
  ring

theorem toRat_of_isWrittenOne {d : Decimal} (h : d.IsWrittenOne) : d.toRat = 1 := by
  obtain ⟨⟨hscale, -⟩, hunscaled⟩ := h
  have hdigits : ((d.scale.toNat : ℕ) : ℤ) = d.scale := Int.toNat_of_nonneg hscale
  rw [toRat, hunscaled]
  push_cast
  rw [← zpow_natCast, hdigits, ← zpow_add₀ (by norm_num), add_neg_cancel, zpow_zero]

/-- A product is exact, also where it strips one of its factors because the other one is one. -/
@[simp] theorem toRat_mul (a b : Decimal) : (a * b).toRat = a.toRat * b.toRat := by
  show (mul a b).toRat = _
  rw [mul]
  split_ifs with ha hb
  · rw [toRat_stripZeros, toRat_of_isWrittenOne ha, one_mul]
  · rw [toRat_stripZeros, toRat_of_isWrittenOne hb, mul_one]
  · rw [toRat_mk, toRat, toRat, neg_add, zpow_add₀ (by norm_num)]
    push_cast
    ring

/-! ## Remainders -/

/-- The whole part of a number: its fraction is dropped, whatever its sign. -/
def truncate (q : ℚ) : ℤ := if 0 ≤ q then ⌊q⌋ else ⌈q⌉

theorem truncate_neg (q : ℚ) : truncate (-q) = -truncate q := by
  rcases lt_trichotomy q 0 with hneg | rfl | hpos
  · rw [truncate, truncate, if_pos (by linarith), if_neg (by linarith), Int.floor_neg]
  · simp [truncate]
  · rw [truncate, truncate, if_neg (by linarith), if_pos hpos.le, Int.ceil_neg]

/-- Truncating division of whole numbers is the whole part of their quotient. -/
theorem tdiv_eq_truncate (a b : ℤ) : a.tdiv b = truncate ((a : ℚ) / b) := by
  have hnat (m n : ℕ) : ((m : ℤ).tdiv n) = truncate ((m : ℚ) / n) := by
    rw [truncate, if_pos (by positivity), Rat.floor_natCast_div_natCast]
    exact (Int.natCast_div m n).symm
  -- both sides are odd in either operand
  obtain ⟨m, rfl | rfl⟩ := Int.eq_nat_or_neg a <;> obtain ⟨n, rfl | rfl⟩ := Int.eq_nat_or_neg b
  · simpa using hnat m n
  · simpa [div_neg, truncate_neg] using hnat m n
  · simpa [neg_div, truncate_neg] using hnat m n
  · simpa [neg_div_neg_eq] using hnat m n

/-- **Remainders** are what the whole part of the quotient leaves. -/
theorem toRat_rem (a b : Decimal) :
    (a % b).toRat = a.toRat - b.toRat * truncate (a.toRat / b.toRat) := by
  have ha' := cast_unscaledAt (le_max_left a.scale b.scale)
  have hb' := cast_unscaledAt (le_max_right a.scale b.scale)
  have hpower := ten_zpow_ne_zero (max a.scale b.scale)
  have hquotient : (a.unscaledAt (commonScale a b) : ℚ) / b.unscaledAt (commonScale a b) =
      a.toRat / b.toRat := by
    rw [commonScale, ha', hb', mul_div_mul_right _ _ hpower]
  show toRat ⟨(a.unscaledAt (commonScale a b)).tmod (b.unscaledAt (commonScale a b)), _⟩ = _
  rw [Int.tmod_def, tdiv_eq_truncate, hquotient, toRat_mk, zpow_neg, commonScale]
  push_cast
  rw [ha', hb']
  field_simp

end Reckoner.Decimal
