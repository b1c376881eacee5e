import Reckoner.Proofs.Binary64.Rounding

/-!
# Nearest numbers

What it means that a number is **nearest** to a fraction (`Binary64.IsNearest`) is said here without an
algorithm: among all magnitudes, those past every bound included, none is nearer, and one that is as near
as another is even. A result is then the nearest number where that is finite, and there is none where it is
not (`Binary64.RoundsTo`).

* Rounding finds **the** nearest magnitude (`isNearest_roundMagnitude`, `IsNearest.unique`). The numbers
  around the fraction are whole multiples of the spacing, and all others are below the fraction and
  farther away than one of these.
* The fractions that are rounded to one number are an **interval** (`IsNearest.between`) around it
  (`isNearest_valueOf`, `isNearest_of_sub_lt`).
-/

namespace Reckoner.Binary64

variable {m n : ℕ} {q : ℚ} {x : Binary64}

/-! ## Values of magnitudes -/

/-- The next magnitude stands for one spacing more. -/
theorem exists_spacings (m : ℕ) : ∃ step spacings, spacings < 2 ^ 53 ∧
    unitsOf m = spacings * 2 ^ step ∧ unitsOf (m + 1) = (spacings + 1) * 2 ^ step := by
  obtain ⟨step, spacings, hm, hlong, hshort⟩ : ∃ step spacings, m = step * 2 ^ 52 + spacings ∧
      (step = 0 ∨ 2 ^ 52 ≤ spacings) ∧ spacings < 2 ^ 53 :=
    ⟨m / 2 ^ 52 - 1, m - (m / 2 ^ 52 - 1) * 2 ^ 52, by omega, by omega, by omega⟩
  refine ⟨step, spacings, hshort, ?_, ?_⟩
  · rw [hm, unitsOf_carry hlong hshort.le]
  · rw [hm, Nat.add_assoc, unitsOf_carry (by omega) hshort]

/-- A larger magnitude stands for a larger number of units. -/
theorem unitsOf_strictMono : StrictMono unitsOf := by
  refine strictMono_nat_of_lt_succ fun m => ?_
  obtain ⟨step, spacings, -, hm, hnext⟩ := exists_spacings m
  rw [hm, hnext]
  exact Nat.mul_lt_mul_of_pos_right (Nat.lt_succ_self spacings) (Nat.two_pow_pos step)

theorem valueOf_strictMono : StrictMono valueOf := by
  intro m n h
  exact div_lt_div_of_pos_right (by exact_mod_cast unitsOf_strictMono h) cast_unitsPerOne_pos

/-- A number is not many times as large as its distance to the next one. -/
theorem valueOf_le_gap (m : ℕ) : valueOf m ≤ 2 ^ 53 * (valueOf (m + 1) - valueOf m) := by
  obtain ⟨step, spacings, hshort, hm, hnext⟩ := exists_spacings m
  have hunits := cast_unitsPerOne_pos
  have hle : (spacings : ℚ) * 2 ^ step ≤ 2 ^ 53 * 2 ^ step :=
    mul_le_mul_of_nonneg_right (by exact_mod_cast hshort.le) (by positivity)
  rw [valueOf, valueOf, hm, hnext, ← sub_div, ← mul_div_assoc]
  refine div_le_div_of_nonneg_right ?_ hunits.le
  push_cast
  linarith

/-! ## Being nearest -/

/-- No magnitude is nearer to the fraction, and the magnitude is even if another one is as near. -/
structure IsNearest (magnitude : ℕ) (q : ℚ) : Prop where
  /-- no magnitude is nearer -/
  le_dist : ∀ other, |valueOf magnitude - q| ≤ |valueOf other - q|
  /-- ties go to even -/
  even_of_tie : ∀ other, other ≠ magnitude → |valueOf other - q| = |valueOf magnitude - q| →
    magnitude % 2 = 0

/-- The lower of two numbers is as near as the other one up to the middle between them. -/
theorem abs_sub_le_iff_of_lt {a b : ℚ} (h : a < b) : |a - q| ≤ |b - q| ↔ 2 * q ≤ a + b := by
  rw [← sq_le_sq]
  constructor
  · intro hle
    have hfactor : 0 ≤ (b - a) * (a + b - 2 * q) := by linarith
    linarith [nonneg_of_mul_nonneg_right hfactor (sub_pos.mpr h)]
  · intro hle
    have hfactor := mul_nonneg (sub_pos.mpr h).le (sub_nonneg.mpr hle)
    linarith

/-- The higher of two numbers is as near as the other one from the middle between them on. -/
theorem abs_sub_le_iff_of_gt {a b : ℚ} (h : a < b) : |b - q| ≤ |a - q| ↔ a + b ≤ 2 * q := by
  rw [← sq_le_sq]
  constructor
  · intro hle
    have hfactor : 0 ≤ (b - a) * (2 * q - (a + b)) := by linarith
    linarith [nonneg_of_mul_nonneg_right hfactor (sub_pos.mpr h)]
  · intro hle
    have hfactor := mul_nonneg (sub_pos.mpr h).le (sub_nonneg.mpr hle)
    linarith

/-- **There is one** nearest magnitude. -/
theorem IsNearest.unique (hm : IsNearest m q) (hn : IsNearest n q) : m = n := by
  have hlt {m n : ℕ} (hm : IsNearest m q) (hn : IsNearest n q) : ¬ m < n := by
    intro h
    have hdist := le_antisymm (hm.le_dist n) (hn.le_dist m)
    have heven := hm.even_of_tie n h.ne' hdist.symm
    have heven' := hn.even_of_tie m h.ne hdist
    -- between two even magnitudes there is an odd one, and it would be nearer
    have hbetween : valueOf (m + 1) < valueOf n := valueOf_strictMono (by omega)
    have hbefore := (abs_sub_le_iff_of_lt (valueOf_strictMono (Nat.lt_succ_self m))).mp
      (hm.le_dist (m + 1))
    have hbehind := (abs_sub_le_iff_of_gt (valueOf_strictMono h)).mp hdist.ge
    linarith
  exact le_antisymm (not_lt.mp (hlt hn hm)) (not_lt.mp (hlt hm hn))

/-- **An interval** of fractions is rounded to a magnitude. -/
theorem IsNearest.between {a b : ℚ} (ha : IsNearest m a) (hb : IsNearest m b) (haq : a ≤ q)
    (hqb : q ≤ b) : IsNearest m q := by
  constructor
  · intro other
    rcases lt_trichotomy m other with hlt | rfl | hgt
    · have hle := (abs_sub_le_iff_of_lt (valueOf_strictMono hlt)).mp (hb.le_dist other)
      exact (abs_sub_le_iff_of_lt (valueOf_strictMono hlt)).mpr (by linarith)
    · exact le_rfl
    · have hle := (abs_sub_le_iff_of_gt (valueOf_strictMono hgt)).mp (ha.le_dist other)
      exact (abs_sub_le_iff_of_gt (valueOf_strictMono hgt)).mpr (by linarith)
  · intro other hne htie
    -- a tie inside of the interval is one at its end
    rcases lt_or_gt_of_ne hne with hlt | hgt
    · have hle := (abs_sub_le_iff_of_gt (valueOf_strictMono hlt)).mp (ha.le_dist other)
      have hge := (abs_sub_le_iff_of_lt (valueOf_strictMono hlt)).mp htie.le
      obtain rfl : q = a := by linarith
      exact ha.even_of_tie other hne htie
    · have hle := (abs_sub_le_iff_of_lt (valueOf_strictMono hgt)).mp (hb.le_dist other)
      have hge := (abs_sub_le_iff_of_gt (valueOf_strictMono hgt)).mp htie.le
      obtain rfl : q = b := by linarith
      exact hb.even_of_tie other hne htie

/-- A number is nearest to itself. -/
theorem isNearest_valueOf (m : ℕ) : IsNearest m (valueOf m) := by
  constructor
  · intro other
    rw [sub_self, abs_zero]
    exact abs_nonneg _
  · intro other hne htie
    rw [sub_self, abs_zero, abs_eq_zero, sub_eq_zero] at htie
    exact absurd (valueOf_strictMono.injective htie) hne

/-- What is above a number by less than half of the distance to the next is rounded to it. -/
theorem isNearest_of_sub_lt (hle : valueOf m ≤ q)
    (hlt : 2 * (q - valueOf m) < valueOf (m + 1) - valueOf m) : IsNearest m q := by
  have hcloser (other : ℕ) (hne : other ≠ m) : |valueOf m - q| < |valueOf other - q| := by
    rcases lt_or_gt_of_ne hne with hbelow | habove
    · have h := valueOf_strictMono hbelow
      rw [abs_of_nonpos (by linarith), abs_of_nonpos (by linarith)]
      linarith
    · have h : valueOf (m + 1) ≤ valueOf other := valueOf_strictMono.monotone habove
      rw [abs_of_nonpos (by linarith), abs_of_nonneg (by linarith)]
      linarith
  constructor
  · intro other
    by_cases hne : other = m
    · rw [hne]
    · exact (hcloser other hne).le
  · intro other hne htie
    exact absurd htie (hcloser other hne).ne'

/-! ## Rounding is to nearest -/

/-- A quotient is half way between two whole numbers only if it is rounded to an even one. -/
theorem roundHalfEven_even {numerator denominator : ℕ} (hpos : 0 < denominator)
    (h : |(roundHalfEven numerator denominator : ℚ) - numerator / denominator| = 1 / 2) :
    roundHalfEven numerator denominator % 2 = 0 := by
  have hpos' : (0 : ℚ) < denominator := by exact_mod_cast hpos
  have hdivision : ((numerator / denominator : ℕ) : ℚ) * denominator +
      (numerator % denominator : ℕ) = numerator := by
    exact_mod_cast Nat.div_add_mod' numerator denominator
  have hquotient : (numerator : ℚ) / denominator =
      (numerator / denominator : ℕ) + (numerator % denominator : ℕ) / denominator := by
    rw [← hdivision]
    field_simp
  rw [hquotient] at h
  simp only [roundHalfEven] at h ⊢
  split_ifs at h ⊢ with hlow hhigh
  · have hrest : ((numerator % denominator : ℕ) : ℚ) / denominator < 1 / 2 := by
      rw [div_lt_div_iff₀ hpos' two_pos]
      exact_mod_cast (by omega : numerator % denominator * 2 < 1 * denominator)
    have hnonneg : (0 : ℚ) ≤ (numerator % denominator : ℕ) / denominator := by positivity
    rw [abs_of_nonpos (by linarith)] at h
    linarith
  · have hrest : (1 : ℚ) / 2 < (numerator % denominator : ℕ) / denominator := by
      rw [div_lt_div_iff₀ two_pos hpos']
      exact_mod_cast (by omega : 1 * denominator < numerator % denominator * 2)
    have hone : ((numerator % denominator : ℕ) : ℚ) / denominator ≤ 1 := by
      rw [div_le_one hpos']
      exact_mod_cast (Nat.mod_lt numerator hpos).le
    push_cast at h
    rw [abs_of_nonneg (by linarith)] at h
    linarith
  · omega

/-- No whole number is nearer to a quotient than the rounded one, and that is even in a tie. -/
theorem roundHalfEven_nearest (numerator : ℕ) {denominator : ℕ} (hpos : 0 < denominator) (k : ℕ) :
    |(roundHalfEven numerator denominator : ℚ) - numerator / denominator| ≤
        |(k : ℚ) - numerator / denominator| ∧
      (k ≠ roundHalfEven numerator denominator →
        |(k : ℚ) - numerator / denominator| =
          |(roundHalfEven numerator denominator : ℚ) - numerator / denominator| →
        roundHalfEven numerator denominator % 2 = 0) := by
  have herror := abs_roundHalfEven_sub_le numerator hpos
  by_cases hk : k = roundHalfEven numerator denominator
  · rw [hk]
    exact ⟨le_rfl, fun hne => absurd rfl hne⟩
  · -- another whole number is at least one away
    have hapart : (1 : ℚ) ≤ |(k : ℚ) - roundHalfEven numerator denominator| := by
      have hne : (k : ℤ) - roundHalfEven numerator denominator ≠ 0 := by omega
      exact_mod_cast Int.one_le_abs hne
    have htriangle := abs_sub_le (k : ℚ) (numerator / denominator)
      (roundHalfEven numerator denominator)
    rw [abs_sub_comm ((numerator : ℚ) / denominator)] at htriangle
    refine ⟨by linarith, fun _ htie => roundHalfEven_even hpos (by linarith)⟩

/-- The values of magnitudes are whole multiples of a spacing, but for those below the shortest number that
is written with it. -/
theorem dvd_or_unitsOf_lt (step m : ℕ) :
    2 ^ step ∣ unitsOf m ∨ step ≠ 0 ∧ unitsOf m < 2 ^ 52 * 2 ^ step := by
  rcases Nat.eq_zero_or_pos step with rfl | hstep
  · exact .inl (one_dvd _)
  rw [unitsOf]
  split_ifs with hsubnormal
  · exact .inr ⟨hstep.ne',
      hsubnormal.trans_le (Nat.le_mul_of_pos_right _ (Nat.two_pow_pos step))⟩
  · rcases Nat.lt_or_ge (m / 2 ^ 52 - 1) step with hfine | hcoarse
    · have hlt : 2 ^ 52 + m % 2 ^ 52 < 2 ^ 53 := by omega
      refine .inr ⟨hstep.ne', ?_⟩
      calc (2 ^ 52 + m % 2 ^ 52) * 2 ^ (m / 2 ^ 52 - 1)
          < 2 ^ 53 * 2 ^ (m / 2 ^ 52 - 1) := Nat.mul_lt_mul_of_pos_right hlt (Nat.two_pow_pos _)
        _ = 2 ^ 52 * 2 ^ (m / 2 ^ 52 - 1 + 1) := by rw [Nat.pow_succ 2 (m / 2 ^ 52 - 1)]; ring
        _ ≤ 2 ^ 52 * 2 ^ step := Nat.mul_le_mul_left _ (Nat.pow_le_pow_right two_pos hfine)
    · exact .inl (Dvd.dvd.mul_left (Nat.pow_dvd_pow 2 hcoarse) _)

/-- The shortest number that is written with the spacing around a fraction is not above the fraction. -/
theorem shortest_le (numerator : ℕ) {denominator : ℕ} (hpos : 0 < denominator)
    (hspacing : spacingAround numerator denominator ≠ 0) :
    ((2 ^ 52 * 2 ^ spacingAround numerator denominator : ℕ) : ℚ) / unitsPerOne ≤
      numerator / denominator := by
  have hle := two_pow_mul_spacing_le hspacing
  rw [Nat.le_div_iff_mul_le hpos] at hle
  rw [div_le_div_iff₀ cast_unitsPerOne_pos (by exact_mod_cast hpos)]
  exact_mod_cast hle

/-- **Rounding** finds the nearest magnitude. -/
theorem isNearest_roundMagnitude (numerator : ℕ) {denominator : ℕ} (hpos : 0 < denominator) :
    IsNearest (roundMagnitude numerator denominator) (numerator / denominator) := by
  have hvalue := unitsOf_roundMagnitude numerator denominator
  have hlow := shortest_le numerator hpos
  have hmagnitude : roundMagnitude numerator denominator =
      spacingAround numerator denominator * 2 ^ 52 + roundHalfEven (numerator * unitsPerOne)
        (denominator * 2 ^ spacingAround numerator denominator) := rfl
  generalize spacingAround numerator denominator = step at hvalue hlow hmagnitude
  have hspacing : (0 : ℚ) < 2 ^ step / unitsPerOne := div_pos (by positivity) cast_unitsPerOne_pos
  have hnearest := roundHalfEven_nearest (numerator * unitsPerOne)
    (Nat.mul_pos hpos (Nat.two_pow_pos step))
  generalize roundHalfEven (numerator * unitsPerOne) (denominator * 2 ^ step) = spacings
    at hvalue hmagnitude hnearest
  -- distances from whole multiples of the spacing are counted in spacings
  have hdist (k : ℕ) : |((k * 2 ^ step : ℕ) : ℚ) / unitsPerOne - numerator / denominator| =
      |(k : ℚ) - ((numerator * unitsPerOne : ℕ) : ℚ) / ((denominator * 2 ^ step : ℕ) : ℚ)| *
        (2 ^ step / unitsPerOne) := by
    rw [spacings_sub_eq k numerator step hpos, abs_mul, abs_of_pos hspacing]
  have hle (k : ℕ) : |valueOf (roundMagnitude numerator denominator) - numerator / denominator| ≤
      |((k * 2 ^ step : ℕ) : ℚ) / unitsPerOne - numerator / denominator| := by
    rw [valueOf, hvalue, hdist, hdist]
    exact mul_le_mul_of_nonneg_right (hnearest k).1 hspacing.le
  -- what is no multiple of the spacing is farther away than the shortest multiple
  have hfar {other : ℕ} (hother : step ≠ 0 ∧ unitsOf other < 2 ^ 52 * 2 ^ step) :
      |valueOf (roundMagnitude numerator denominator) - numerator / denominator| <
        |valueOf other - numerator / denominator| := by
    have hbelow : valueOf other < ((2 ^ 52 * 2 ^ step : ℕ) : ℚ) / unitsPerOne :=
      div_lt_div_of_pos_right (by exact_mod_cast hother.2) cast_unitsPerOne_pos
    have hshortest := hlow hother.1
    refine (hle (2 ^ 52)).trans_lt ?_
    rw [abs_of_nonpos (by linarith), abs_of_nonpos (by linarith)]
    linarith
  constructor
  · intro other
    rcases dvd_or_unitsOf_lt step other with ⟨k, hk⟩ | hother
    · rw [valueOf, valueOf, ← valueOf, hk, Nat.mul_comm _ k]
      exact hle k
    · exact (hfar hother).le
  · intro other hne htie
    rcases dvd_or_unitsOf_lt step other with ⟨k, hk⟩ | hother
    · rw [Nat.mul_comm] at hk
      have hk' : k ≠ spacings := by
        rintro rfl
        exact hne (unitsOf_strictMono.injective (hk.trans hvalue.symm))
      rw [valueOf, valueOf, hk, hvalue, hdist, hdist] at htie
      have heven := (hnearest k).2 hk' (mul_right_cancel₀ hspacing.ne' htie)
      omega
    · exact absurd htie (hfar hother).ne'

/-! ## Nearest results -/

/-- The number of a magnitude with a sign, unless the magnitude is too large to be finite. -/
def ofMagnitude? (negative : Bool) (magnitude : ℕ) : Option Binary64 :=
  if finite : magnitude < overflow then some ⟨negative, magnitude, finite⟩ else none

theorem ofMagnitude?_self (x : Binary64) : ofMagnitude? x.negative x.magnitude = some x :=
  dif_pos x.magnitude_lt

theorem ofMagnitude?_of_lt (negative : Bool) (h : m < overflow) :
    ∃ x, ofMagnitude? negative m = some x ∧ x.negative = negative ∧ x.size = valueOf m :=
  ⟨⟨negative, m, h⟩, dif_pos h, rfl, rfl⟩

theorem ofMagnitude?_of_le (negative : Bool) (h : overflow ≤ m) : ofMagnitude? negative m = none :=
  dif_neg (not_lt.mpr h)

/-- **Rounding to nearest**: the result is the number nearest to the fraction, with its sign, and there is
none where that number is not finite. -/
def RoundsTo (q : ℚ) (result : Option Binary64) : Prop :=
  ∃ m, IsNearest m |q| ∧ result = ofMagnitude? (decide (q < 0)) m

/-- A fraction is rounded to **one** result. -/
theorem RoundsTo.unique {result result' : Option Binary64} (h : RoundsTo q result)
    (h' : RoundsTo q result') : result = result' := by
  obtain ⟨m, hm, rfl⟩ := h
  obtain ⟨n, hn, rfl⟩ := h'
  rw [hm.unique hn]

theorem RoundsTo.isNearest (h : RoundsTo q (some x)) : IsNearest x.magnitude |q| := by
  obtain ⟨m, hm, hx⟩ := h
  rw [ofMagnitude?] at hx
  split_ifs at hx
  cases hx
  exact hm

/-- What is not above half of the smallest positive number is rounded to zero. -/
theorem isNearest_zero (hle : q ≤ leastPositive / 2) : IsNearest 0 q := by
  have hzero : valueOf 0 = 0 := by
    rw [valueOf, show unitsOf 0 = 0 by decide, Nat.cast_zero, zero_div]
  have hone : valueOf 1 = leastPositive := by
    rw [valueOf, show unitsOf 1 = 1 by decide, Nat.cast_one, leastPositive]
  constructor
  · intro other
    rcases Nat.eq_zero_or_pos other with rfl | hpos
    · exact le_rfl
    · have hother : valueOf 1 ≤ valueOf other := valueOf_strictMono.monotone hpos
      refine (abs_sub_le_iff_of_lt (valueOf_strictMono hpos)).mpr ?_
      linarith
  · exact fun _ _ _ => rfl

end Reckoner.Binary64
