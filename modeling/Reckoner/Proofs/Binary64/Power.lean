import Reckoner.Arithmetic
import Reckoner.Proofs.Binary64.OfDecimal

/-!
# Powers that are refused

There is no real power of a **negative base** with a **fractional exponent**, and `BinaryOp.power`
refuses such operands as an invalid exponent. It looks at them after conversion to binary64, so what
counts are the sign and the fractional part that conversion leaves.

* A conversion keeps signs unless it gives zero, and keeps whole numbers whole. So **no other
  operands** are refused.
* A conversion gives zero only below the smallest positive number, and it makes a fraction whole only
  within its tolerance of a whole number. **Everywhere else** such operands are refused.
* In between they are not: `1.00000000000000000001` is converted to one, and the power of minus two to
  it is taken to be minus two.
-/

namespace Reckoner.BinaryOp

open Binary64 (leastPositive)
open Decimal (IsWhole NearWhole)

variable {base exponent : Decimal} {b e : Binary64}

/-- The only error that a result gives is that there is none. -/
theorem eq_nonFinite_of_ofBinary64 {operator : Operator} {result : Option Binary64}
    {error : EvalError} (h : operator.ofBinary64 result = .error error) : error = .nonFinite operator := by
  cases result with
  | none =>
    cases h
    rfl
  | some x => cases h

/-- Refused are the powers of **converted** operands that are not real. -/
theorem power_eq_invalidExponent_iff (hbase : base.toBinary64? = some b)
    (hexponent : exponent.toBinary64? = some e) {base' exponent' : Decimal} :
    power base exponent = .error (.invalidExponent base' exponent') ↔
      (base' = base ∧ exponent' = exponent) ∧ b.IsNegative ∧ ¬ e.IsIntegral := by
  have hb : (Operator.binary pow).toBinary64 base = .ok b := by
    rw [Operator.toBinary64, hbase]
  have he : (Operator.binary pow).toBinary64 exponent = .ok e := by
    rw [Operator.toBinary64, hexponent]
  rw [power, hb, ok_bind, he, ok_bind]
  by_cases hrefused : b.IsNegative ∧ ¬ e.IsIntegral
  · rw [if_pos hrefused]
    constructor
    · intro h
      cases h
      exact ⟨⟨rfl, rfl⟩, hrefused⟩
    · rintro ⟨⟨rfl, rfl⟩, -⟩
      rfl
  · rw [if_neg hrefused]
    refine iff_of_false (fun h => ?_) fun h => hrefused h.2
    cases eq_nonFinite_of_ofBinary64 h

/-- A converted base is negative if the base is and its conversion is not zero. -/
theorem isNegative_iff (hbase : base.toBinary64? = some b) :
    b.IsNegative ↔ base.toRat < 0 ∧ ¬ b.IsZero := by
  rw [Binary64.IsNegative, Decimal.toBinary64?_negative hbase, decide_eq_true_eq,
    Decimal.toRat_neg_iff]

/-- A converted exponent is fractional only if the exponent is. -/
theorem not_isIntegral_iff (hexponent : exponent.toBinary64? = some e) :
    ¬ e.IsIntegral ↔ ¬ exponent.IsWhole ∧ ¬ e.IsIntegral :=
  ⟨fun h => ⟨fun hwhole => h (Decimal.toBinary64?_isIntegral hwhole hexponent), h⟩, And.right⟩

/-- **Powers that are refused.** Of the operands that can be converted, those are refused whose base is
negative and whose exponent is fractional, each before and after conversion, and they are reported as
they are. Negative bases at least as large as the smallest positive number stay negative, and exponents
that are not near to a whole number stay fractional. -/
theorem power_refuses (hbase : base.toBinary64? = some b)
    (hexponent : exponent.toBinary64? = some e) :
    (∀ base' exponent', power base exponent = .error (.invalidExponent base' exponent') ↔
      (base' = base ∧ exponent' = exponent) ∧ (base.toRat < 0 ∧ ¬ b.IsZero) ∧
        ¬ exponent.IsWhole ∧ ¬ e.IsIntegral) ∧
    (base.toRat ≤ -leastPositive → ¬ NearWhole exponent.toRat →
      power base exponent = .error (.invalidExponent base exponent)) := by
  refine ⟨fun base' exponent' => ?_, fun hlow hfar => ?_⟩
  · rw [power_eq_invalidExponent_iff hbase hexponent, isNegative_iff hbase,
      ← not_isIntegral_iff hexponent]
  · have hpos := Binary64.leastPositive_pos
    have hne : ¬ b.IsZero := by
      intro hzero
      have hlt := (abs_lt.mp (Decimal.size_lt_of_isZero hbase hzero)).1
      linarith
    have hfraction : ¬ e.IsIntegral := mt (Decimal.nearWhole_of_isIntegral hexponent) hfar
    exact (power_eq_invalidExponent_iff hbase hexponent).mpr
      ⟨⟨rfl, rfl⟩, (isNegative_iff hbase).mpr ⟨by linarith, hne⟩, hfraction⟩

/-- The square root of minus four is refused. So little above one that conversion does not see it, the
exponent is fractional too, but minus two to that power is found to be minus two. -/
theorem power_refuses_half :
    power ⟨-4, 0⟩ ⟨5, 1⟩ = .error (.invalidExponent ⟨-4, 0⟩ ⟨5, 1⟩) ∧
      ¬ IsWhole ⟨10 ^ 20 + 1, 20⟩ ∧
      (power ⟨-2, 0⟩ ⟨10 ^ 20 + 1, 20⟩).toOption = some ⟨-2, 0⟩ := by
  have hbase : Decimal.toBinary64? ⟨-4, 0⟩ = some ⟨true, 1025 * 2 ^ 52, by decide⟩ := by
    decide +kernel
  have hexponent : Decimal.toBinary64? ⟨5, 1⟩ = some ⟨false, 1022 * 2 ^ 52, by decide⟩ := by
    decide +kernel
  have hsmall : leastPositive ≤ 1 / 2 := by
    have hunits : 2 ≤ Binary64.unitsPerOne := by decide +kernel
    exact one_div_le_one_div_of_le two_pos (by exact_mod_cast hunits)
  have hfour : Decimal.toRat ⟨-4, 0⟩ = -4 := by norm_num [Decimal.toRat]
  have hhalf : Decimal.toRat ⟨5, 1⟩ = 1 / 2 := by norm_num [Decimal.toRat]
  refine ⟨(power_refuses hbase hexponent).2 ?_ ?_, ?_, by decide +kernel⟩
  · rw [hfour]
    linarith
  · -- no whole number is nearer to one half than zero and one
    rw [hhalf, NearWhole, abs_of_pos (by norm_num)]
    rintro ⟨n, hn⟩
    have hdistance : (1 : ℚ) / 2 ≤ |1 / 2 - (n : ℚ)| := by
      rcases le_or_gt n 0 with hlow | hhigh
      · have hlow' : (n : ℚ) ≤ 0 := by exact_mod_cast hlow
        exact le_trans (by linarith) (le_abs_self _)
      · have hhigh' : (1 : ℚ) ≤ n := by exact_mod_cast hhigh
        exact le_trans (by linarith) (neg_le_abs _)
    have hle := Binary64.tolerance_le hsmall
    linarith
  · intro hwhole
    have hdvd : 10 ^ 20 ∣ (10 ^ 20 + 1 : ℤ).natAbs := hwhole.dvd rfl
    exact absurd hdvd (by decide)

end Reckoner.BinaryOp
