import Mathlib.Algebra.Order.Ring.Pow
import Reckoner.Proofs.Binary64.Conversion

/-!
# How near a conversion comes

A decimal with zeros left unwritten is rounded **many times**: its digits once, the power of ten once for every
time it is counted in repeated squaring, and their product. So it need not give the nearest number, and what
it gives depends on how the decimal is written. It still comes near.

* Rounding a number from one on makes it larger or smaller by a small part, its **roundoff** at most
  (`IsNearest.abs_sub_le_roundoff`). What several roundings can make of a number is a narrow interval
  (`Within`), and products add up the roundings of their factors (`Approximates.mul?`).
* Where a number past the finite ones comes up on the way, what is computed is about as large
  (`Approximates.none_mono`), so this is carried along as the other kind of result.
* **Repeated squaring** therefore rounds as often as the exponent says (`approximates_squareAndMultiply?`),
  by induction on the exponent, whose lowest binary digit goes to the product and whose others go to the
  square of the base.
* There are never **many** zeros where there is a result (`zeros_lt`), since the numbers end before
  `10 ^ 342`. So few roundings add up to less than a `2 ^ 43`rd part (`toBinary64?_precision`).
-/

namespace Reckoner

namespace Binary64

variable {m n a b : ℕ} {p q y z : ℚ} {x : Binary64} {result : Option Binary64}

/-! ## One rounding -/

/-- The error of one rounding, as a part of what is rounded. -/
def roundoff : ℚ := 1 / 2 ^ 53

theorem roundoff_pos : 0 < roundoff := by
  rw [roundoff]
  positivity

theorem roundoff_lt : roundoff < 1 / 2 ^ 20 := by
  rw [roundoff]
  exact one_div_lt_one_div_of_lt (by positivity) (pow_lt_pow_right₀ one_lt_two (by decide))

/-- Rounding to nearest moves a fraction by half its tolerance at most. -/
theorem IsNearest.abs_sub_le (h : IsNearest m q) (hq : 0 ≤ q) : |valueOf m - q| ≤ tolerance q / 2 := by
  have hfraction : (q.num.toNat : ℚ) / q.den = q := by
    rw [← Int.cast_natCast, Int.toNat_of_nonneg (Rat.num_nonneg.mpr hq), Rat.num_div_den]
  have hnearest := isNearest_roundMagnitude q.num.toNat q.den_pos
  have hle := abs_valueOf_sub_le q.num.toNat q.den_pos
  rw [hfraction] at hnearest hle
  rwa [h.unique hnearest]

/-- What is at least a one is moved by its part at most. -/
theorem IsNearest.abs_sub_le_roundoff (h : IsNearest m q) (hq : 1 ≤ q) :
    |valueOf m - q| ≤ q * roundoff := by
  have hsmall : leastPositive ≤ q / 2 ^ 52 := by
    have hunits : (2 : ℚ) ^ 52 ≤ unitsPerOne := by
      have hle : 2 ^ 52 ≤ unitsPerOne := by decide +kernel
      exact_mod_cast hle
    calc leastPositive ≤ 1 / 2 ^ 52 := one_div_le_one_div_of_le (by positivity) hunits
      _ ≤ q / 2 ^ 52 := div_le_div_of_nonneg_right hq (by positivity)
  have hle := h.abs_sub_le (by linarith)
  rw [tolerance, max_eq_right hsmall] at hle
  rw [roundoff]
  linarith

theorem tolerance_le_add (hq : 0 ≤ q) : tolerance q ≤ leastPositive + q / 2 ^ 52 :=
  max_le_add_of_nonneg leastPositive_pos.le (div_nonneg hq (by positivity))

/-- No number below the fraction is passed. -/
theorem IsNearest.le_valueOf (h : IsNearest m q) (hle : valueOf n ≤ q) : valueOf n ≤ valueOf m := by
  by_contra hlt
  rw [not_le] at hlt
  have hdist := (abs_sub_le_iff_of_lt hlt).mp (h.le_dist n)
  linarith

theorem size_lt (x : Binary64) : x.size < 2 ^ 1024 := by
  rw [← valueOf_overflow]
  exact valueOf_strictMono x.magnitude_lt

/-! ## Several roundings -/

/-- The number `z` is what `n` roundings can make of `q`. -/
structure Within (n : ℕ) (q z : ℚ) : Prop where
  /-- all of them down -/
  lower : q * (1 - roundoff) ^ n ≤ z
  /-- all of them up -/
  upper : z ≤ q * (1 + roundoff) ^ n

theorem one_sub_roundoff_pow_pos (n : ℕ) : 0 < (1 - roundoff) ^ n :=
  pow_pos (by linarith [roundoff_lt]) n

theorem one_le_one_add_roundoff_pow (n : ℕ) : 1 ≤ (1 + roundoff) ^ n :=
  one_le_pow₀ (by linarith [roundoff_pos])

theorem Within.refl (q : ℚ) : Within 0 q q := ⟨by simp, by simp⟩

theorem Within.trans (hy : Within a q y) (hz : Within b y z) : Within (a + b) q z := by
  constructor
  · rw [pow_add, ← mul_assoc]
    exact (mul_le_mul_of_nonneg_right hy.lower (one_sub_roundoff_pow_pos b).le).trans hz.lower
  · rw [pow_add, ← mul_assoc]
    have hpos := one_le_one_add_roundoff_pow b
    exact hz.upper.trans (mul_le_mul_of_nonneg_right hy.upper (by linarith))

theorem Within.mul (hp : 0 ≤ p) (hq : 0 ≤ q) (hy : Within a p y) (hz : Within b q z) :
    Within (a + b) (p * q) (y * z) := by
  have hlow := one_sub_roundoff_pow_pos a
  have hlow' := one_sub_roundoff_pow_pos b
  have hy' : 0 ≤ y := le_trans (by positivity) hy.lower
  have hz' : 0 ≤ z := le_trans (by positivity) hz.lower
  constructor
  · rw [pow_add, mul_mul_mul_comm]
    exact mul_le_mul hy.lower hz.lower (by positivity) hy'
  · rw [pow_add, mul_mul_mul_comm]
    exact mul_le_mul hy.upper hz.upper hz' (hy'.trans hy.upper)

theorem IsNearest.within (h : IsNearest m q) (hq : 1 ≤ q) : Within 1 q (valueOf m) := by
  have hle := abs_le.mp (h.abs_sub_le_roundoff hq)
  constructor <;> rw [pow_one] <;> linarith

/-- Not too many roundings add up. -/
theorem one_add_roundoff_pow_le (hn : n ≤ 512) : (1 + roundoff) ^ n ≤ 1 + 2 * (n * roundoff) := by
  have hsmall := roundoff_lt
  have hpos := roundoff_pos
  have hn' : (n : ℚ) ≤ 512 := by exact_mod_cast hn
  have hsum : n * roundoff ≤ 1 / 2 := by
    have hle := mul_le_mul hn' hsmall.le hpos.le (by norm_num)
    linarith
  -- a rounding up and one down make less
  have hproduct : (1 + roundoff) ^ n * (1 - roundoff) ^ n ≤ 1 := by
    rw [← mul_pow]
    refine pow_le_one₀ ?_ ?_ <;> nlinarith
  have hbernoulli := one_add_mul_le_pow (by linarith : -2 ≤ -roundoff) n
  rw [← sub_eq_add_neg] at hbernoulli
  have hup := one_le_one_add_roundoff_pow n
  have hle : (1 + roundoff) ^ n * (1 - n * roundoff) ≤ 1 := by
    refine le_trans (mul_le_mul_of_nonneg_left ?_ (by linarith)) hproduct
    linarith
  have hnonneg : 0 ≤ n * roundoff := by positivity
  generalize (1 + roundoff) ^ n = power at hle
  generalize n * roundoff = sum at hle hsum hnonneg
  nlinarith

theorem Within.abs_sub_le (h : Within n q z) (hq : 0 ≤ q) (hn : n ≤ 512) :
    |z - q| ≤ q * (2 * (n * roundoff)) := by
  have hpos := roundoff_pos
  have hsmall := roundoff_lt
  have hlow := mul_le_mul_of_nonneg_left (one_add_mul_le_pow (by linarith : -2 ≤ -roundoff) n) hq
  have hhigh := mul_le_mul_of_nonneg_left (one_add_roundoff_pow_le hn) hq
  rw [← sub_eq_add_neg] at hlow
  have hnonneg : 0 ≤ q * (n * roundoff) := by positivity
  rw [abs_le]
  constructor
  · linarith [h.lower]
  · linarith [h.upper]

/-! ## Results of several roundings -/

/-- A result is what `n` roundings can make of a number from one on, and there is none only if they can
lead past the finite numbers. -/
inductive Approximates (n : ℕ) (q : ℚ) : Option Binary64 → Prop
  /-- a result that is no smaller than one either -/
  | finite {x : Binary64} (hone : 1 ≤ x.size) (hwithin : Within n q x.size) : Approximates n q (some x)
  /-- no result -/
  | beyond (hlarge : 2 ^ 1024 ≤ q * (1 + roundoff) ^ n) : Approximates n q none

theorem Approximates.large (h : Approximates n q none) : 2 ^ 1024 ≤ q * (1 + roundoff) ^ n := by
  cases h with
  | beyond hlarge => exact hlarge

/-- What leads past the finite numbers does so with more roundings and larger numbers. -/
theorem Approximates.none_mono (h : Approximates a p none) (hp : 0 ≤ p) (hpq : p ≤ q) (hab : a ≤ b) :
    Approximates b q none := by
  have hle : (1 + roundoff) ^ a ≤ (1 + roundoff) ^ b :=
    pow_le_pow_right₀ (by linarith [roundoff_pos]) hab
  have hpos := one_le_one_add_roundoff_pow a
  exact .beyond (h.large.trans (mul_le_mul hpq hle (by linarith) (hp.trans hpq)))

/-- One more rounding. -/
theorem approximates_of_isNearest (negative : Bool) (h : IsNearest m z) (hz : 1 ≤ z)
    (hwithin : Within n q z) : Approximates (n + 1) q (ofMagnitude? negative m) := by
  have hnext := hwithin.trans (h.within hz)
  rcases lt_or_ge m overflow with hfinite | hlarge
  · obtain ⟨x, hx, -, hsize⟩ := ofMagnitude?_of_lt negative hfinite
    have hone : valueOf one.magnitude = 1 := by rw [← size_eq_valueOf, size_one]
    have hle : valueOf one.magnitude ≤ valueOf m := h.le_valueOf (hone.trans_le hz)
    rw [hone, ← hsize] at hle
    rw [← hsize] at hnext
    rw [hx]
    exact .finite hle hnext
  · have hle : valueOf overflow ≤ valueOf m := valueOf_strictMono.monotone hlarge
    rw [valueOf_overflow] at hle
    rw [ofMagnitude?_of_le negative hlarge]
    exact .beyond (hle.trans hnext.upper)

theorem Approximates.mul? {y : Binary64} (hp : 0 ≤ p) (hq : 0 ≤ q) (hx : Approximates a p (some x))
    (hy : Approximates b q (some y)) : Approximates (a + b + 1) (p * q) (x.mul? y) := by
  cases hx with
  | finite hone hwithin =>
    cases hy with
    | finite hone' hwithin' =>
      obtain ⟨m, hm, h⟩ := exists_mul?_eq x y
      rw [h]
      exact approximates_of_isNearest _ hm (one_le_mul_of_one_le_of_one_le hone hone')
        (hwithin.mul hp hq hwithin')

/-- The lowest binary digit of the exponent says whether the base is multiplied in. -/
theorem approximates_digit {product base : Binary64} (hp : 1 ≤ p) (hq : 1 ≤ q)
    (hproduct : Approximates a p (some product)) (hbase : Approximates b q (some base)) (exponent : ℕ) :
    Approximates (a + exponent % 2 * (b + 1)) (p * q ^ (exponent % 2))
      (if exponent % 2 = 1 then product.mul? base else some product) := by
  split_ifs with hodd
  · rw [hodd, one_mul, pow_one, ← add_assoc]
    exact hproduct.mul? (by linarith) (by linarith) hbase
  · rw [show exponent % 2 = 0 by omega, zero_mul, pow_zero, mul_one]
    exact hproduct

/-- **Repeated squaring** rounds as often as the product is multiplied by the base. -/
theorem approximates_squareAndMultiply? {exponent : ℕ} :
    ∀ {product base : Binary64} {a b : ℕ} {p q : ℚ}, 1 ≤ p → 1 ≤ q →
      Approximates a p (some product) → Approximates b q (some base) →
      Approximates (a + exponent * (b + 1)) (p * q ^ exponent)
        (squareAndMultiply? product base exponent) := by
  induction exponent using Nat.strong_induction_on with
  | _ exponent ih =>
    intro product base a b p q hp hq hproduct hbase
    have hnext := approximates_digit hp hq hproduct hbase exponent
    have hsquare := hbase.mul? (by linarith) (by linarith) hbase
    have hfactor : 1 ≤ p * q ^ (exponent % 2) := one_le_mul_of_one_le_of_one_le hp (one_le_pow₀ hq)
    rw [squareAndMultiply?_eq]
    generalize (if exponent % 2 = 1 then product.mul? base else some product) = next at hnext ⊢
    cases next with
    | none =>
      -- already a part of the product is past the finite numbers
      rw [Option.bind_none]
      refine hnext.none_mono (by linarith) ?_ ?_
      · exact mul_le_mul_of_nonneg_left (pow_le_pow_right₀ hq (Nat.mod_le _ _)) (by linarith)
      · exact Nat.add_le_add_left (Nat.mul_le_mul_right _ (Nat.mod_le _ _)) a
    | some next =>
      by_cases hlast : exponent / 2 = 0
      · rw [show exponent % 2 = exponent by omega] at hnext
        rw [Option.bind_some, if_pos hlast]
        exact hnext
      rw [Option.bind_some, if_neg hlast]
      generalize base.mul? base = square at hsquare ⊢
      cases square with
      | none =>
        -- the square is needed at least once, since there are digits left
        rw [Option.bind_none]
        have hpower : q * q ≤ q ^ exponent := by
          rw [← pow_two]
          exact pow_le_pow_right₀ hq (by omega)
        have htwice : 2 * (b + 1) ≤ exponent * (b + 1) := Nat.mul_le_mul_right _ (by omega)
        exact hsquare.none_mono (by positivity)
          (hpower.trans (le_mul_of_one_le_left (by positivity) hp)) (by omega)
      | some square =>
        have h := ih (exponent / 2) (by omega) hfactor (one_le_mul_of_one_le_of_one_le hq hq) hnext
          hsquare
        have hexponent : exponent % 2 + 2 * (exponent / 2) = exponent := by omega
        have hcount : a + exponent % 2 * (b + 1) + exponent / 2 * (b + b + 1 + 1) =
            a + exponent * (b + 1) := by
          conv_rhs => rw [← hexponent]
          ring
        rw [hcount, ← pow_two, ← pow_mul, mul_assoc, ← pow_add, hexponent] at h
        rw [Option.bind_some]
        exact h

/-- A power of ten is rounded as often as its exponent says. -/
theorem approximates_ten_power? (exponent : ℕ) :
    Approximates exponent (10 ^ exponent) (ten.power? exponent) := by
  have hone : Approximates 0 1 (some one) := by
    have hwithin := Within.refl one.size
    rw [size_one] at hwithin
    exact .finite size_one.ge (by rwa [size_one])
  have hten : Approximates 0 10 (some ten) := by
    have hsize : ten.size = 10 := by
      have hunits : ten.units = 10 * unitsPerOne := by decide +kernel
      rw [size, hunits, ones_div_unitsPerOne, Nat.cast_ofNat]
    have hwithin := Within.refl ten.size
    rw [hsize] at hwithin
    exact .finite (by rw [hsize]; norm_num) (by rwa [hsize])
  have h : Approximates (0 + exponent * (0 + 1)) (1 * 10 ^ exponent)
      (squareAndMultiply? one ten exponent) :=
    approximates_squareAndMultiply? le_rfl (by norm_num) hone hten
  rwa [zero_add, zero_add, mul_one, one_mul] at h

end Binary64

namespace Decimal

open Binary64 (Approximates RoundsTo Within leastPositive roundoff roundoff_pos roundoff_lt tolerance)

variable {d : Decimal} {x : Binary64}

/-- Digits and zeros are rounded twice more than the power of ten. -/
theorem approximates_shortened? (negative : Bool) {unscaled zeros : ℕ} (hpos : 0 < unscaled)
    (hlt : zeros < 2 ^ 31) :
    Approximates (zeros + 2) (unscaled * 10 ^ zeros) (shortened? negative unscaled (-zeros)) := by
  have hpos' : (1 : ℚ) ≤ unscaled := by exact_mod_cast hpos
  have hpower' : (1 : ℚ) ≤ 10 ^ zeros := one_le_pow₀ (by norm_num)
  have hdigits : Approximates 1 unscaled (Binary64.nearest? negative unscaled 1) := by
    obtain ⟨m, hm, h⟩ := Binary64.exists_nearest?_eq negative unscaled Nat.one_pos
    rw [Nat.cast_one, div_one] at hm
    rw [h]
    exact Binary64.approximates_of_isNearest negative hm hpos' (.refl _)
  have hpower := Binary64.approximates_ten_power? zeros
  rw [shortened?_scaled negative unscaled hlt]
  generalize Binary64.nearest? negative unscaled 1 = digits at hdigits ⊢
  generalize Binary64.ten.power? zeros = power at hpower ⊢
  cases digits with
  | none =>
    rw [Option.bind_none]
    exact hdigits.none_mono (by linarith) (le_mul_of_one_le_right (by linarith) hpower') (by omega)
  | some digits =>
    rw [Option.bind_some]
    cases power with
    | none =>
      rw [Option.bind_none]
      exact hpower.none_mono (by linarith) (le_mul_of_one_le_left (by linarith) hpos') (by omega)
    | some power =>
      rw [Option.bind_some]
      have h := hdigits.mul? (by linarith) (by linarith) hpower
      rw [show 1 + zeros + 1 = zeros + 2 by omega] at h
      exact h

/-- So many zeros lead past the finite numbers, even with eight for ten. -/
theorem le_eight_pow {zeros : ℕ} (h : 342 ≤ zeros) : (4 : ℚ) * 2 ^ 1024 ≤ 8 ^ zeros := by
  have height : (8 : ℚ) ^ 342 = 4 * 2 ^ 1024 := by
    rw [show (8 : ℚ) = 2 ^ 3 by norm_num, ← pow_mul, show 3 * 342 = 2 + 1024 by norm_num, pow_add]
    norm_num
  rw [← height]
  exact pow_le_pow_right₀ (by norm_num) h

/-- So few zeros are left where there is a result. -/
theorem zeros_lt {unscaled zeros : ℕ} (hpos : 0 < unscaled)
    (h : Within (zeros + 2) (unscaled * 10 ^ zeros) x.size) : zeros < 342 := by
  have hsmall := roundoff_lt
  have hpos' : (1 : ℚ) ≤ unscaled := by exact_mod_cast hpos
  have hlarge : (8 : ℚ) ^ zeros ≤ 10 ^ zeros * (1 - roundoff) ^ zeros := by
    rw [← mul_pow]
    exact pow_le_pow_left₀ (by norm_num) (by linarith) zeros
  have htwo : 1 / 2 ≤ (1 - roundoff) ^ 2 := by nlinarith
  by_contra hmany
  have hbeyond := le_eight_pow (not_lt.mp hmany)
  have hlt := h.lower.trans_lt x.size_lt
  have hle : (8 : ℚ) ^ zeros * (1 / 2) ≤ unscaled * 10 ^ zeros * (1 - roundoff) ^ (zeros + 2) := by
    calc (8 : ℚ) ^ zeros * (1 / 2)
        ≤ 10 ^ zeros * (1 - roundoff) ^ zeros * (1 - roundoff) ^ 2 :=
          mul_le_mul hlarge htwo (by norm_num) (le_trans (by positivity) hlarge)
      _ = 1 * (10 ^ zeros * (1 - roundoff) ^ (zeros + 2)) := by ring
      _ ≤ unscaled * (10 ^ zeros * (1 - roundoff) ^ (zeros + 2)) :=
          mul_le_mul_of_nonneg_right hpos'
            (mul_nonneg (by positivity) (Binary64.one_sub_roundoff_pow_pos _).le)
      _ = unscaled * 10 ^ zeros * (1 - roundoff) ^ (zeros + 2) := by ring
  have htop : (0 : ℚ) < 2 ^ 1024 := by positivity
  generalize (2 : ℚ) ^ 1024 = top at hbeyond hlt htop
  linarith

/-! ## What is kept, and what comes of it -/

/-- Little is cut off. -/
theorem kept_size_bounds (d : Decimal) :
    d.kept.size ≤ d.size ∧ d.size - d.kept.size ≤ d.size / 10 ^ 24 := by
  by_cases hscale : d.scale = 0
  · rw [kept_of_scale_eq_zero hscale, sub_self]
    exact ⟨le_rfl, div_nonneg d.size_nonneg (by positivity)⟩
  · have hkept : d.kept.size =
        d.keptPart * (10 : ℚ) ^ (surplusDigits d.unscaled.natAbs - d.scale) := by
      rw [size_eq, kept_natAbs hscale, kept_scale hscale, neg_sub]
    rw [hkept]
    exact shortened_bounds d

/-- Zero and what is written without a scale is rounded once. -/
theorem not_isZero_and_scale_ne_zero (h : ¬ d.RoundedOnce) : ¬ d.IsZero ∧ d.scale ≠ 0 := by
  refine ⟨fun hzero => h (.inl hzero), fun hscale => h (.inr ?_)⟩
  rw [kept_of_scale_eq_zero hscale, hscale]
  exact ⟨by positivity, .inl le_rfl⟩

/-- Decimals that are rounded more than once have zeros left unwritten, or too large a scale. -/
theorem exists_zeros (h : ¬ d.RoundedOnce) (hscale : d.kept.scale < 2 ^ 31) :
    ∃ zeros : ℕ, d.kept.scale = -zeros ∧ d.kept.size = d.keptPart * 10 ^ zeros ∧
      (zeros < 2 ^ 31 → Approximates (zeros + 2) d.kept.size d.toBinary64?) := by
  obtain ⟨hne, hscale'⟩ := not_isZero_and_scale_ne_zero h
  have hneg : ¬ 0 ≤ d.kept.scale := fun hle => h (.inr ⟨hscale, .inl hle⟩)
  obtain ⟨zeros, hzeros⟩ := Int.exists_eq_neg_ofNat (not_le.mp hneg).le
  have hsize : d.kept.size = d.keptPart * 10 ^ zeros := by
    rw [size_eq, kept_natAbs hscale', hzeros, neg_neg, zpow_natCast]
  refine ⟨zeros, hzeros, hsize, fun hlt => ?_⟩
  rw [toBinary64?_of_scale_ne_zero hne hscale', hzeros, hsize]
  exact approximates_shortened? _ (keptPart_pos hne) hlt

/-- The roundings of so few zeros add up to little. -/
theorem roundings_le {zeros : ℕ} (h : zeros < 342) :
    ((zeros + 2 : ℕ) : ℚ) * roundoff ≤ 343 * roundoff :=
  mul_le_mul_of_nonneg_right (by exact_mod_cast (by omega : zeros + 2 ≤ 343)) roundoff_pos.le

theorem shortScale_of_shortened? {negative : Bool} {unscaled : ℕ} {scale : ℤ}
    (h : shortened? negative unscaled scale = some x) : ShortScale scale := by
  by_contra hlong
  unfold shortened? at h
  rw [if_pos hlong] at h
  cases h

/-- **A result** is near to what is kept. -/
theorem abs_size_sub_kept_le (h : d.toBinary64? = some x) :
    |x.size - d.kept.size| ≤ d.kept.size * (686 * roundoff) + leastPositive / 2 := by
  have hnonneg := d.kept.size_nonneg
  have hleast := Binary64.leastPositive_pos
  by_cases honce : d.RoundedOnce
  · have hrounds := roundsTo_kept honce
    rw [h] at hrounds
    have hle : |x.size - d.kept.size| ≤ tolerance d.kept.size / 2 :=
      hrounds.isNearest.abs_sub_le hnonneg
    have htolerance := Binary64.tolerance_le_add hnonneg
    rw [roundoff]
    linarith
  · obtain ⟨hne, hscale⟩ := not_isZero_and_scale_ne_zero honce
    rw [toBinary64?_of_scale_ne_zero hne hscale] at h
    obtain ⟨hlow, hhigh⟩ := shortScale_of_shortened? h
    obtain ⟨zeros, hzeros, hsize, happrox⟩ := exists_zeros honce hhigh
    have hresult := happrox (by omega)
    rw [toBinary64?_of_scale_ne_zero hne hscale, h] at hresult
    cases hresult with
    | finite hone hwithin =>
      have hfew := zeros_lt (keptPart_pos hne) (hsize ▸ hwithin)
      have hle := hwithin.abs_sub_le hnonneg (by omega)
      have hsum := mul_le_mul_of_nonneg_left (roundings_le hfew) hnonneg
      linarith

/-- **No result** is given only if what is kept is about as large as the finite numbers or larger, or has
a scale that is too large. -/
theorem le_kept_size_of_eq_none (h : d.toBinary64? = none) :
    (1 - 1 / 2 ^ 43) * 2 ^ 1024 ≤ d.kept.size ∨ 2 ^ 31 ≤ d.kept.scale := by
  have hnonneg := d.kept.size_nonneg
  have htop : (2 : ℚ) ^ 53 ≤ 2 ^ 1024 := pow_le_pow_right₀ one_le_two (by decide)
  by_cases honce : d.RoundedOnce
  · left
    obtain ⟨m, hm, hnone⟩ := roundsTo_kept honce
    have hbeyond : Binary64.overflow ≤ m := by
      by_contra hfinite
      obtain ⟨x, hx, -⟩ := Binary64.ofMagnitude?_of_lt (decide (d.kept.toRat < 0)) (not_le.mp hfinite)
      rw [h, hx] at hnone
      cases hnone
    have hvalue := Binary64.valueOf_strictMono.monotone hbeyond
    have hle : |Binary64.valueOf m - d.kept.size| ≤ tolerance d.kept.size / 2 :=
      hm.abs_sub_le hnonneg
    have htolerance := Binary64.tolerance_le_add hnonneg
    have hleast := Binary64.leastPositive_le_one
    have hupper := (abs_le.mp hle).2
    rw [Binary64.valueOf_overflow] at hvalue
    generalize (2 : ℚ) ^ 1024 = top at htop hvalue ⊢
    linarith
  · rcases le_or_gt (2 ^ 31) d.kept.scale with hlarge | hhigh
    · exact .inr hlarge
    left
    obtain ⟨hne, hscale⟩ := not_isZero_and_scale_ne_zero honce
    obtain ⟨zeros, -, hsize, happrox⟩ := exists_zeros honce hhigh
    rcases le_or_gt 342 zeros with hmany | hfew
    · have hpos : (1 : ℚ) ≤ d.keptPart := by exact_mod_cast keptPart_pos hne
      have hbeyond := le_eight_pow hmany
      have hten : (8 : ℚ) ^ zeros ≤ 10 ^ zeros := pow_le_pow_left₀ (by norm_num) (by norm_num) zeros
      have hle : (10 : ℚ) ^ zeros ≤ d.kept.size := by
        rw [hsize]
        exact le_mul_of_one_le_left (by positivity) hpos
      generalize (2 : ℚ) ^ 1024 = top at htop hbeyond ⊢
      linarith
    · have hresult := happrox (by omega)
      rw [h] at hresult
      have hup := Binary64.one_add_roundoff_pow_le (by omega : zeros + 2 ≤ 512)
      have hfactor : (1 + roundoff) ^ (zeros + 2) ≤ 1 + 2 * (343 * roundoff) := by
        linarith [roundings_le hfew]
      have hle := hresult.large.trans (mul_le_mul_of_nonneg_left hfactor hnonneg)
      rw [roundoff] at hle
      generalize (2 : ℚ) ^ 1024 = top at htop hle ⊢
      linarith

/-- **How near a conversion comes.** A decimal that is rounded once gives the number nearest to what is
kept of it, and that is all of it unless it is very long. In any case little is cut off, and a result has the
sign of the decimal, and its size up to a small part of it and half of the smallest positive number. There is
a result unless the decimal is about as large as the finite numbers or larger, or has a scale that is too
large. -/
theorem toBinary64?_precision (d : Decimal) :
    (d.RoundedOnce → RoundsTo d.kept.toRat d.toBinary64?) ∧
    (d.unscaled.natAbs < 10 ^ 43 → d.kept = d) ∧
    (d.kept.size ≤ d.size ∧ d.size - d.kept.size ≤ d.size / 10 ^ 24) ∧
    (∀ x, d.toBinary64? = some x → x.negative = decide d.IsNegative ∧
      |x.size - d.size| ≤ d.size / 2 ^ 43 + leastPositive / 2) ∧
    (d.toBinary64? = none → (1 - 1 / 2 ^ 43) * 2 ^ 1024 ≤ d.size ∨ 2 ^ 31 ≤ d.kept.scale) := by
  obtain ⟨hlow, hcut⟩ := kept_size_bounds d
  refine ⟨roundsTo_kept, kept_eq_self, ⟨hlow, hcut⟩, fun x hx => ⟨toBinary64?_negative hx, ?_⟩,
    fun hnone => ?_⟩
  · have hle := abs_size_sub_kept_le hx
    have htriangle := abs_sub_le x.size d.kept.size d.size
    rw [abs_sub_comm d.kept.size, abs_of_nonneg (sub_nonneg.mpr hlow)] at htriangle
    have hnonneg := d.size_nonneg
    rw [roundoff] at hle
    linarith
  · exact (le_kept_size_of_eq_none hnone).imp_left hlow.trans'

/-- Small powers of ten are rounded to zero. -/
theorem roundsTo_zero {places : ℕ} (h : 1076 < 3 * places) :
    RoundsTo (toRat ⟨1, places⟩) (some Binary64.zero) := by
  have hvalue : toRat ⟨1, places⟩ = (1 : ℕ) / 10 ^ places := by
    rw [toRat_mk, zpow_neg, zpow_natCast, ← div_eq_mul_inv, Int.cast_one, Nat.cast_one]
  have hnonneg : 0 ≤ toRat ⟨1, places⟩ := by
    rw [hvalue]
    positivity
  refine ⟨0, Binary64.isNearest_zero ?_, ?_⟩
  · rw [abs_of_nonneg hnonneg, hvalue]
    have hlog : Nat.log2 1 = 0 := by decide
    exact Binary64.div_ten_pow_le (by rw [hlog]; exact h)
  · rw [decide_eq_false (not_lt.mpr hnonneg)]
    rfl

/-- Of two ways to write a number only the plain one gives the nearest result, and a power of ten that is next
to zero gives none at all. -/
theorem toBinary64?_precision_scaled :
    toRat ⟨9007199254740993, -1⟩ = toRat ⟨90071992547409930, 0⟩ ∧
      RoundsTo (toRat ⟨90071992547409930, 0⟩) (toBinary64? ⟨90071992547409930, 0⟩) ∧
      ¬ RoundsTo (toRat ⟨9007199254740993, -1⟩) (toBinary64? ⟨9007199254740993, -1⟩) ∧
      RoundsTo (toRat ⟨1, 2147483648⟩) (some Binary64.zero) ∧
      toBinary64? ⟨1, 2147483648⟩ = none := by
  have hsame : toRat ⟨9007199254740993, -1⟩ = toRat ⟨90071992547409930, 0⟩ := by
    norm_num [toRat]
  have hrounds : RoundsTo (toRat ⟨90071992547409930, 0⟩) (toBinary64? ⟨90071992547409930, 0⟩) :=
    (toBinary64?_precision ⟨90071992547409930, 0⟩).1 (.inr ⟨by decide, .inl (by decide)⟩)
  have htiny : 1076 < 3 * 2147483648 := by decide
  refine ⟨hsame, hrounds, fun h => ?_, roundsTo_zero htiny, by decide⟩
  rw [hsame] at h
  exact absurd (h.unique hrounds) (by decide +kernel)

end Decimal

end Reckoner
