import Mathlib.Algebra.Order.Round
import Reckoner.Decimal.Quotient
import Reckoner.Proofs.Decimal.Rational

/-!
# Rounded quotients

Quotients are rounded **to the nearest** whole number of units, halves away from zero
(`Decimal.roundAway`): no other whole number is nearer (`abs_sub_roundAway_le`), and of two that are
equally near it is the one that is farther from zero (`abs_le_abs_roundAway`).

The program works with magnitudes and whole numbers only. It moves both operands to one whole fraction,
rounds that half up (`roundHalfUp_eq_round`), and puts the sign back; where it finds a quotient at all,
this is the quotient of the numbers denoted, rounded once (`quotient?_eq_some_iff`), and there is only one
way to round (`IsRounded.unique`). Together: `quotient?_exact`.
-/

namespace Reckoner.Decimal

/-! ## Rounding away from zero -/

/-- The whole number nearest to `x`, and of two the one that is farther from zero. -/
def roundAway (x : ℚ) : ℤ := if 0 ≤ x then round x else -round (-x)

theorem roundAway_of_nonneg {x : ℚ} (h : 0 ≤ x) : roundAway x = round x := if_pos h

theorem roundAway_neg (x : ℚ) : roundAway (-x) = -roundAway x := by
  rcases lt_trichotomy x 0 with hneg | rfl | hpos
  · rw [roundAway, roundAway, if_pos (by linarith), if_neg (by linarith), neg_neg]
  · simp [roundAway]
  · rw [roundAway, roundAway, if_neg (by linarith), if_pos hpos.le, neg_neg]

/-- No whole number is nearer. -/
theorem abs_sub_roundAway_le (x : ℚ) (n : ℤ) : |x - roundAway x| ≤ |x - n| := by
  rw [roundAway]
  split_ifs with h
  · exact round_le x n
  · have hnearest := round_le (-x) (-n)
    have hround : |(-x) - round (-x)| = |x - ↑(-round (-x))| := by
      rw [← abs_neg]
      congr 1
      push_cast
      ring
    have hother : |(-x) - ↑(-n)| = |x - n| := by
      rw [← abs_neg]
      congr 1
      push_cast
      ring
    rwa [hround, hother] at hnearest

theorem abs_le_abs_round {x : ℚ} (hx : 0 ≤ x) {n : ℤ} (h : |x - n| = |x - round x|) :
    |n| ≤ |round x| := by
  have hlow := sub_half_lt_round x
  have hround : 0 ≤ round x := by
    rw [round_eq]
    exact Int.floor_nonneg.mpr (by linarith)
  have hround' : (0 : ℚ) ≤ round x := by exact_mod_cast hround
  rw [abs_of_nonneg hround]
  rcases abs_eq_abs.mp h with heq | heq
  · have hn : n = round x := by
      have : (n : ℚ) = round x := by linarith
      exact_mod_cast this
    rw [hn, abs_of_nonneg hround]
  · -- the other whole number lies as far on the other side
    have hn : (n : ℚ) = 2 * x - round x := by linarith
    have hle : n ≤ round x := by
      by_contra hlt
      have hstep : (round x : ℚ) + 1 ≤ n := by exact_mod_cast Int.add_one_le_of_lt (not_le.mp hlt)
      linarith
    have hge : -round x ≤ n := by
      have : (-round x : ℚ) ≤ n := by linarith
      exact_mod_cast this
    exact abs_le.mpr ⟨hge, hle⟩

/-- Of two nearest whole numbers it is the one that is farther from zero. -/
theorem abs_le_abs_roundAway {x : ℚ} {n : ℤ} (h : |x - n| = |x - roundAway x|) :
    |n| ≤ |roundAway x| := by
  by_cases hx : 0 ≤ x
  · rw [roundAway_of_nonneg hx] at h ⊢
    exact abs_le_abs_round hx h
  · have hneg : roundAway x = -round (-x) := if_neg hx
    have hsym : |(-x) - ↑(-n)| = |(-x) - round (-x)| := by
      rw [← abs_neg, ← abs_neg ((-x) - (round (-x) : ℚ))]
      rw [hneg] at h
      push_cast at h ⊢
      convert h using 2 <;> ring
    have hle := abs_le_abs_round (by linarith) hsym
    rwa [abs_neg, ← abs_neg (round (-x)), ← hneg] at hle

/-- The whole number is nearest to `x`, and of two the one that is farther from zero. -/
structure IsRounded (x : ℚ) (n : ℤ) : Prop where
  /-- no whole number is nearer -/
  nearest : ∀ m : ℤ, |x - n| ≤ |x - m|
  /-- none that is as near is farther from zero -/
  farthest : ∀ m : ℤ, |x - m| = |x - n| → |m| ≤ |n|

theorem isRounded_roundAway (x : ℚ) : IsRounded x (roundAway x) :=
  ⟨abs_sub_roundAway_le x, fun _ => abs_le_abs_roundAway⟩

/-- There is only one way to round. -/
theorem IsRounded.unique {x : ℚ} {n m : ℤ} (hn : IsRounded x n) (hm : IsRounded x m) : n = m := by
  have hdistance : |x - n| = |x - m| := le_antisymm (hn.nearest m) (hm.nearest n)
  have habs : |n| = |m| := le_antisymm (hm.farthest n hdistance) (hn.farthest m hdistance.symm)
  rcases abs_eq_abs.mp habs with heq | heq
  · exact heq
  · -- opposite numbers are equally near to zero alone, and then they are zero themselves
    have hzero := hm.nearest 0
    rw [heq] at hdistance
    push_cast at hdistance hzero
    rcases abs_eq_abs.mp hdistance with hx | hx
    · have hmzero : (m : ℚ) = 0 := by linarith
      rw [heq, Int.cast_eq_zero.mp hmzero, neg_zero]
    · have hxzero : x = 0 := by linarith
      rw [hxzero, zero_sub, abs_neg, sub_zero, abs_zero] at hzero
      rw [heq, Int.cast_eq_zero.mp (abs_nonpos_iff.mp hzero), neg_zero]

/-! ## Magnitudes -/

/-- Half up is to the nearest. -/
theorem roundHalfUp_eq_round (numerator : ℕ) {denominator : ℕ} (h : denominator ≠ 0) :
    (roundHalfUp numerator denominator : ℤ) = round ((numerator : ℚ) / denominator) := by
  have hne : (denominator : ℚ) ≠ 0 := by exact_mod_cast h
  have hsum : (numerator : ℚ) / denominator + 1 / 2 =
      ((2 * numerator + denominator : ℕ) : ℚ) / ((2 * denominator : ℕ) : ℚ) := by
    push_cast
    field_simp
  rw [round_eq, hsum, Rat.floor_natCast_div_natCast, roundHalfUp]
  push_cast
  rfl

/-- The magnitude of the quotient counts units of the wanted scale. -/
theorem quotientMagnitude_eq_round (shift : ℤ) (dividend : ℕ) {divisor : ℕ} (h : divisor ≠ 0) :
    (quotientMagnitude shift dividend divisor : ℤ) =
      round ((dividend : ℚ) / divisor * (10 : ℚ) ^ shift) := by
  have hne : (divisor : ℚ) ≠ 0 := by exact_mod_cast h
  rcases shift with places | places
  · rw [quotientMagnitude, roundHalfUp_eq_round _ h]
    congr 1
    push_cast
    rw [Int.ofNat_eq_natCast, zpow_natCast]
    ring
  · rw [quotientMagnitude, roundHalfUp_eq_round _ (Nat.mul_ne_zero h (by positivity))]
    congr 1
    rw [zpow_negSucc]
    push_cast
    field_simp

/-! ## Quotients -/

theorem abs_toRat_eq (d : Decimal) : |d.toRat| = d.unscaled.natAbs * (10 : ℚ) ^ (-d.scale) := by
  rw [← toRat_abs]
  rfl

/-- The magnitude of the quotient in units of the wanted scale. -/
theorem abs_quotient_eq (scale : ℤ) (a b : Decimal) :
    |a.toRat / b.toRat| * (10 : ℚ) ^ scale =
      (a.unscaled.natAbs : ℚ) / b.unscaled.natAbs * (10 : ℚ) ^ alignment scale a b := by
  have hpower : (10 : ℚ) ^ alignment scale a b =
      (10 : ℚ) ^ (-a.scale) / (10 : ℚ) ^ (-b.scale) * (10 : ℚ) ^ scale := by
    rw [← zpow_sub₀ (by norm_num), ← zpow_add₀ (by norm_num), alignment]
    congr 1
    ring
  rw [abs_div, abs_toRat_eq, abs_toRat_eq, hpower]
  ring

theorem toRat_neg_iff {d : Decimal} : d.toRat < 0 ↔ d.IsNegative := by
  rw [toRat, mul_neg_iff]
  simp [ten_zpow_pos, (ten_zpow_pos _).le, IsNegative]

/-- The sign of the quotient: operands on one side of zero have a quotient that is not negative. -/
theorem quotient_nonneg {a b : Decimal} (h : a.IsNegative ↔ b.IsNegative) :
    0 ≤ a.toRat / b.toRat := by
  rw [← toRat_neg_iff, ← toRat_neg_iff] at h
  by_cases ha : a.toRat < 0
  · exact div_nonneg_of_nonpos ha.le (h.mp ha).le
  · exact div_nonneg (not_lt.mp ha) (not_lt.mp (mt h.mpr ha))

/-- The sign of the quotient: operands on two sides of zero have a quotient that is not positive. -/
theorem quotient_nonpos {a b : Decimal} (h : ¬ (a.IsNegative ↔ b.IsNegative)) :
    a.toRat / b.toRat ≤ 0 := by
  rw [← toRat_neg_iff, ← toRat_neg_iff] at h
  by_cases ha : a.toRat < 0
  · have hb : 0 ≤ b.toRat := not_lt.mp fun hb => h (iff_of_true ha hb)
    exact div_nonpos_of_nonpos_of_nonneg ha.le hb
  · have hb : b.toRat < 0 := by
      by_contra hb
      exact h (iff_of_false ha hb)
    exact div_nonpos_of_nonneg_of_nonpos (not_lt.mp ha) hb.le

/-- Rounding the magnitude and putting the sign back is rounding away from zero. -/
theorem signed_round (scale : ℤ) (a b : Decimal) :
    (if a.IsNegative ↔ b.IsNegative then round (|a.toRat / b.toRat| * (10 : ℚ) ^ scale)
      else -round (|a.toRat / b.toRat| * (10 : ℚ) ^ scale)) =
      roundAway (a.toRat / b.toRat * (10 : ℚ) ^ scale) := by
  have hunits := ten_zpow_pos scale
  split_ifs with hsign
  · have hnonneg := quotient_nonneg hsign
    rw [abs_of_nonneg hnonneg, roundAway_of_nonneg (mul_nonneg hnonneg hunits.le)]
  · have hneg : a.toRat / b.toRat * (10 : ℚ) ^ scale =
        -(|a.toRat / b.toRat| * (10 : ℚ) ^ scale) := by
      rw [abs_of_nonpos (quotient_nonpos hsign)]
      ring
    rw [hneg, roundAway_neg, roundAway_of_nonneg (mul_nonneg (abs_nonneg _) hunits.le)]

/-- **Quotients are rounded once**: there is a quotient if the divisor is not zero and the alignment
is in range, and then it is the quotient of the numbers denoted, rounded at the wanted scale. -/
theorem quotient?_eq_some_iff {scale : ℤ} {a b d : Decimal} :
    quotient? scale a b = some d ↔ ¬ b.IsZero ∧ AlignmentInRange scale a b ∧
      d = ⟨roundAway (a.toRat / b.toRat * (10 : ℚ) ^ scale), scale⟩ := by
  by_cases hfails : b.IsZero ∨ ¬ AlignmentInRange scale a b
  · rw [quotient?, if_pos hfails]
    constructor
    · intro h
      cases h
    · rintro ⟨hzero, hrange, -⟩
      rcases hfails with hb | hr
      · exact absurd hb hzero
      · exact absurd hrange hr
  · obtain ⟨hzero, hrange⟩ := not_or.mp hfails
    have hmagnitude := quotientMagnitude_eq_round (alignment scale a b) a.unscaled.natAbs
      (Int.natAbs_ne_zero.mpr hzero)
    rw [← abs_quotient_eq] at hmagnitude
    have hquotient : quotient? scale a b =
        some ⟨roundAway (a.toRat / b.toRat * (10 : ℚ) ^ scale), scale⟩ := by
      rw [quotient?, if_neg hfails, ← signed_round]
      simp only [hmagnitude]
      split_ifs <;> rfl
    rw [hquotient]
    constructor
    · intro h
      cases h
      exact ⟨hzero, of_not_not hrange, rfl⟩
    · rintro ⟨-, -, rfl⟩
      rfl

/-- The multiple of `10 ^ (-scale)` that is nearest to `x`, and of two the one that is farther from
zero. -/
def roundAt (scale : ℤ) (x : ℚ) : ℚ := roundAway (x * (10 : ℚ) ^ scale) * (10 : ℚ) ^ (-scale)

/-- A quotient denotes the multiple of its unit that is nearest to the exact quotient. -/
theorem toRat_quotient {scale : ℤ} {a b d : Decimal} (h : quotient? scale a b = some d) :
    d.toRat = roundAt scale (a.toRat / b.toRat) := by
  obtain ⟨-, -, rfl⟩ := quotient?_eq_some_iff.mp h
  rfl

/-- A quotient has the wanted scale, and the nearest digits there. -/
theorem rounded_of_quotient {scale : ℤ} {a b d : Decimal} (h : quotient? scale a b = some d) :
    d.scale = scale ∧ IsRounded (a.toRat / b.toRat * (10 : ℚ) ^ scale) d.unscaled := by
  obtain ⟨-, -, rfl⟩ := quotient?_eq_some_iff.mp h
  exact ⟨rfl, isRounded_roundAway _⟩

/-- There is no quotient by zero, nor where the alignment leaves the range of scales on its way, nor
where its power of ten cannot be written out. -/
theorem quotient?_eq_none_iff {scale : ℤ} {a b : Decimal} :
    quotient? scale a b = none ↔ b.IsZero ∨ ¬ ScaleInRange (scale + b.scale) ∨
      ¬ ScaleInRange (scale + b.scale - a.scale) ∨ 2 ^ 32 ≤ (scale + b.scale - a.scale).natAbs := by
  have hpower : ¬ (scale + b.scale - a.scale).natAbs < powerLimit ↔
      2 ^ 32 ≤ (scale + b.scale - a.scale).natAbs := Nat.not_lt
  rw [← hpower, ← not_and_or, ← not_and_or]
  constructor
  · intro h
    by_contra hdefined
    obtain ⟨hzero, hrange⟩ := not_or.mp hdefined
    rw [quotient?_eq_some_iff.mpr ⟨hzero, not_not.mp hrange, rfl⟩] at h
    cases h
  · exact fun h => if_pos h

/-- **Division at a fixed scale** fails for a divisor that is zero and for an alignment that is out of
range, and for nothing else. What it gives has that scale, and its digits are the exact quotient in units
of the scale, rounded to the nearest whole number, halves away from zero. So quotients of operands that
denote the same numbers are the same. -/
theorem quotient?_exact (scale : ℤ) (a b : Decimal) :
    (quotient? scale a b = none ↔ b.IsZero ∨ ¬ ScaleInRange (scale + b.scale) ∨
      ¬ ScaleInRange (scale + b.scale - a.scale) ∨ 2 ^ 32 ≤ (scale + b.scale - a.scale).natAbs) ∧
    (∀ d, quotient? scale a b = some d →
      d.scale = scale ∧ IsRounded (a.toRat / b.toRat * (10 : ℚ) ^ scale) d.unscaled) ∧
    ∀ a' b' d d', a'.toRat = a.toRat → b'.toRat = b.toRat → quotient? scale a b = some d →
      quotient? scale a' b' = some d' → d' = d := by
  refine ⟨quotient?_eq_none_iff, fun d => rounded_of_quotient, ?_⟩
  intro a' b' d d' ha hb h h'
  obtain ⟨hscale, hrounded⟩ := rounded_of_quotient h
  obtain ⟨hscale', hrounded'⟩ := rounded_of_quotient h'
  rw [ha, hb] at hrounded'
  exact Decimal.ext (hrounded'.unique hrounded) (hscale'.trans hscale.symm)

/-- Twenty-five ones are two and a half tens: the half is rounded away from zero, also where the operands
are written with more digits. -/
theorem quotient?_exact_half :
    quotient? (-1) ⟨-25, 0⟩ ⟨1, 0⟩ = some ⟨-3, -1⟩ ∧ IsRounded (-5 / 2) (-3) ∧
      quotient? (-1) ⟨-250, 1⟩ ⟨100, 2⟩ = some ⟨-3, -1⟩ := by
  obtain ⟨-, hrounds, hvalues⟩ := quotient?_exact (-1) ⟨-25, 0⟩ ⟨1, 0⟩
  have hquotient : quotient? (-1) ⟨-25, 0⟩ ⟨1, 0⟩ = some ⟨-3, -1⟩ := by decide
  have hdividend : toRat ⟨-250, 1⟩ = toRat ⟨-25, 0⟩ := by norm_num [toRat]
  have hdivisor : toRat ⟨100, 2⟩ = toRat ⟨1, 0⟩ := by norm_num [toRat]
  obtain ⟨d, hd⟩ := Option.isSome_iff_exists.mp
    (show (quotient? (-1) ⟨-250, 1⟩ ⟨100, 2⟩).isSome by decide)
  have hexact : toRat ⟨-25, 0⟩ / toRat ⟨1, 0⟩ * (10 : ℚ) ^ (-1 : ℤ) = -5 / 2 := by norm_num [toRat]
  refine ⟨hquotient, ?_, ?_⟩
  · rw [← hexact]
    exact (hrounds _ hquotient).2
  · rw [hd, hvalues _ _ _ _ hdividend hdivisor hquotient hd]

end Reckoner.Decimal
