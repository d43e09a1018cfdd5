import Mathlib.Algebra.Order.Field.Power
import Mathlib.Data.Int.Log
import Mathlib.Data.Rat.Floor
import Mathlib.Tactic.FieldSimp
import Mathlib.Tactic.GCongr
import Mathlib.Tactic.Linarith
import Mathlib.Tactic.NormNum
import Mathlib.Tactic.Positivity
import Mathlib.Tactic.Ring
import SlotQuery.Decimal.Binary64

/-!
# Rounding to the nearest binary number

`Binary64.ofFraction?` over the rationals. Which fraction stands for a number does not matter
(`ofFraction?_congr`), what comes out is a number of the format (`canonical_of_ofFraction?`), no further away
than half a step of the grid it is rounded to (`abs_toRat_sub_le`), and a fraction closer to a number than
half the way to its neighbours is rounded to it (`ofFraction?_of_near`).
-/

namespace SlotQuery

/-! ## Quotients -/

theorem roundDiv_bounds (num : ℕ) {den : ℕ} (h : 0 < den) :
    2 * (roundDiv num den * den) ≤ 2 * num + den ∧ 2 * num ≤ 2 * (roundDiv num den * den) + den := by
  have hnum := Nat.div_add_mod' num den
  have hmod := Nat.mod_lt num h
  simp only [roundDiv]
  generalize num / den = q at hnum ⊢
  generalize num % den = r at hnum hmod ⊢
  split
  · omega
  · split
    · rw [Nat.add_mul]
      omega
    · -- a half goes to the even one of the two
      rcases Nat.mod_two_eq_zero_or_one q with heven | hodd
      · rw [heven, Nat.add_zero]
        omega
      · rw [hodd, Nat.add_mul]
        omega

/-- Rounding moves a quotient by a half at most. -/
theorem abs_roundDiv_sub_le (num : ℕ) {den : ℕ} (h : 0 < den) :
    |(roundDiv num den : ℚ) - num / den| ≤ 1 / 2 := by
  obtain ⟨hlow, hhigh⟩ := roundDiv_bounds num h
  have hden : (0 : ℚ) < den := by exact_mod_cast h
  have hlow' : (2 : ℚ) * (roundDiv num den * den) ≤ 2 * num + den := by exact_mod_cast hlow
  have hhigh' : (2 : ℚ) * num ≤ 2 * (roundDiv num den * den) + den := by exact_mod_cast hhigh
  have hnum : (num : ℚ) = num / den * den := (div_mul_cancel₀ _ hden.ne').symm
  rw [hnum] at hlow' hhigh'
  rw [abs_le]
  constructor <;> nlinarith

/-- A natural number less than a half away is the rounded quotient. -/
theorem roundDiv_eq_of_near (num : ℕ) {den k : ℕ} (h : 0 < den) (hk : |(num : ℚ) / den - k| < 1 / 2) :
    roundDiv num den = k := by
  have hround := abs_roundDiv_sub_le num h
  rw [abs_le] at hround
  rw [abs_lt] at hk
  have hlow : (roundDiv num den : ℚ) < k + 1 := by linarith
  have hhigh : (k : ℚ) < roundDiv num den + 1 := by linarith
  have hlow' : roundDiv num den < k + 1 := by exact_mod_cast hlow
  have hhigh' : k < roundDiv num den + 1 := by exact_mod_cast hhigh
  omega

theorem roundDiv_mul_mul (num den : ℕ) {k : ℕ} (h : 0 < k) :
    roundDiv (k * num) (k * den) = roundDiv num den := by
  have hless : 2 * (k * (num % den)) < k * den ↔ 2 * (num % den) < den := by
    rw [Nat.mul_left_comm, Nat.mul_lt_mul_left h]
  have hmore : k * den < 2 * (k * (num % den)) ↔ den < 2 * (num % den) := by
    rw [Nat.mul_left_comm, Nat.mul_lt_mul_left h]
  simp only [roundDiv, Nat.mul_div_mul_left _ _ h, Nat.mul_mod_mul_left, hless, hmore]

/-- Equal fractions are rounded alike. -/
theorem roundDiv_congr {num den num' den' : ℕ} (hden : 0 < den) (hden' : 0 < den')
    (h : num * den' = num' * den) : roundDiv num den = roundDiv num' den' := by
  rw [← roundDiv_mul_mul num den hden', ← roundDiv_mul_mul num' den' hden, Nat.mul_comm den' num, h,
    Nat.mul_comm num' den, Nat.mul_comm den den']

/-! ## Scaling -/

theorem abs_sub_mul_of_pos {a b c : ℚ} (hc : 0 < c) : |a - b| * c = |a * c - b * c| := by
  rw [← sub_mul, abs_mul, abs_of_pos hc]

/-- A power with an exponent of either sign, as a fraction of naturals. -/
theorem pow_toNat_div {b : ℚ} (hb : b ≠ 0) (e : ℤ) : b ^ e.toNat / b ^ (-e).toNat = b ^ e := by
  rw [div_eq_iff (pow_ne_zero _ hb), ← zpow_natCast, ← zpow_natCast, ← zpow_add₀ hb]
  congr 1
  omega

/-- A fraction in units of a power. -/
theorem scaled_div (num den : ℕ) {b : ℕ} (hb : b ≠ 0) (e : ℤ) :
    ((num * Nat.pow b (-e).toNat : ℕ) : ℚ) / (den * Nat.pow b e.toNat : ℕ) = num / den / (b : ℚ) ^ e := by
  have hb' : (b : ℚ) ≠ 0 := Nat.cast_ne_zero.2 hb
  rw [← pow_toNat_div hb' e]
  push_cast [Nat.pow_eq]
  field_simp

theorem two_zpow_le_iff {q : ℚ} (hq : 0 < q) {e : ℤ} : (2 : ℚ) ^ e ≤ q ↔ e ≤ Int.log 2 q := by
  rw [← Int.zpow_le_iff_le_log Nat.one_lt_two hq, Nat.cast_ofNat]

theorem lt_two_zpow_iff {q : ℚ} (hq : 0 < q) {e : ℤ} : q < (2 : ℚ) ^ e ↔ Int.log 2 q < e := by
  rw [← Int.lt_zpow_iff_log_lt Nat.one_lt_two hq, Nat.cast_ofNat]

namespace Binary64

/-! ## Binary numbers as rationals -/

/-- The number as a rational. -/
def toRat (x : Binary64) : ℚ := x.mantissa * 2 ^ x.exponent

/-- The number is one of the format, written with the least exponent. -/
structure Canonical (x : Binary64) : Prop where
  mantissa_lt : x.mantissa < 2 ^ 53
  minExponent_le : minExponent ≤ x.exponent
  le_maxExponent : x.exponent ≤ maxExponent
  full_or_least : 2 ^ 52 ≤ x.mantissa ∨ x.exponent = minExponent

theorem toFraction_pos (x : Binary64) : 0 < x.toFraction.2 := Nat.pow_pos (by decide)

/-- The fraction of a number is its value. -/
theorem toFraction_div (x : Binary64) : (x.toFraction.1 : ℚ) / x.toFraction.2 = x.toRat := by
  rw [toRat, ← pow_toNat_div two_ne_zero]
  simp only [toFraction]
  push_cast [Nat.pow_eq]
  rw [mul_div_assoc]

theorem canonical_zero : Canonical zero := ⟨by decide, by decide, by decide, by decide⟩

@[simp] theorem toRat_zero : zero.toRat = 0 := by simp [toRat, zero]

theorem toRat_nonneg (x : Binary64) : 0 ≤ x.toRat := by
  rw [toRat]
  positivity

theorem toRat_eq_zero_iff {x : Binary64} : x.toRat = 0 ↔ x.mantissa = 0 := by
  rw [toRat, mul_eq_zero_iff_right (zpow_ne_zero _ two_ne_zero), Nat.cast_eq_zero]

theorem toRat_pos_iff {x : Binary64} : 0 < x.toRat ↔ x.mantissa ≠ 0 := by
  rw [x.toRat_nonneg.lt_iff_ne', ne_eq, toRat_eq_zero_iff]

/-! ## The grid of a fraction -/

/-- The power of two at or below a fraction is told by its logarithm. -/
theorem log2Fraction_eq {num den : ℕ} (hnum : 0 < num) (hden : 0 < den) :
    log2Fraction num den = Int.log 2 ((num : ℚ) / den) := by
  have hnum' : (0 : ℚ) < num := by exact_mod_cast hnum
  have hden' : (0 : ℚ) < den := by exact_mod_cast hden
  have hq : (0 : ℚ) < num / den := by positivity
  have hnum_ge : (2 : ℚ) ^ (num.log2 : ℤ) ≤ num := by exact_mod_cast Nat.log2_self_le hnum.ne'
  have hnum_lt : (num : ℚ) < 2 ^ ((num.log2 : ℤ) + 1) := by exact_mod_cast @Nat.lt_log2_self num
  have hden_ge : (2 : ℚ) ^ (den.log2 : ℤ) ≤ den := by exact_mod_cast Nat.log2_self_le hden.ne'
  have hden_lt : (den : ℚ) < 2 ^ ((den.log2 : ℤ) + 1) := by exact_mod_cast @Nat.lt_log2_self den
  -- the two powers leave one exponent open, which the comparison decides
  have hlow : (2 : ℚ) ^ ((num.log2 : ℤ) - den.log2 - 1) ≤ num / den := by
    rw [le_div_iff₀ hden']
    calc (2 : ℚ) ^ ((num.log2 : ℤ) - den.log2 - 1) * den
        ≤ 2 ^ ((num.log2 : ℤ) - den.log2 - 1) * 2 ^ ((den.log2 : ℤ) + 1) := by gcongr
      _ = 2 ^ (num.log2 : ℤ) := by
        rw [← zpow_add₀ two_ne_zero]
        congr 1
        omega
      _ ≤ num := hnum_ge
  have hhigh : (num : ℚ) / den < 2 ^ ((num.log2 : ℤ) - den.log2 + 1) := by
    rw [div_lt_iff₀ hden']
    calc (num : ℚ) < 2 ^ ((num.log2 : ℤ) + 1) := hnum_lt
      _ = 2 ^ ((num.log2 : ℤ) - den.log2 + 1) * 2 ^ (den.log2 : ℤ) := by
        rw [← zpow_add₀ two_ne_zero]
        congr 1
        omega
      _ ≤ 2 ^ ((num.log2 : ℤ) - den.log2 + 1) * den := by gcongr
  have hlow' := (two_zpow_le_iff hq).1 hlow
  have hhigh' := (lt_two_zpow_iff hq).1 hhigh
  simp only [log2Fraction]
  generalize (num.log2 : ℤ) - den.log2 = k at hlow' hhigh' ⊢
  have hscaled : num * Nat.pow 2 (-k).toNat < den * Nat.pow 2 k.toNat ↔
      Int.log 2 ((num : ℚ) / den) < k := by
    have hpos : (0 : ℚ) < (den * Nat.pow 2 k.toNat : ℕ) := by
      exact_mod_cast Nat.mul_pos hden (Nat.pow_pos Nat.two_pos)
    rw [← lt_two_zpow_iff hq, ← @Nat.cast_lt ℚ, ← div_lt_one hpos, scaled_div num den two_ne_zero,
      Nat.cast_ofNat, div_lt_one (by positivity)]
  split
  · next h =>
    have := hscaled.1 h
    omega
  · next h =>
    have := mt hscaled.2 h
    omega

/-- The exponent of the grid that a positive rational is rounded to. -/
def gridExponent (q : ℚ) : ℤ := max minExponent (Int.log 2 q - 52)

/-- The number at so many steps of a grid. A mantissa that is too long by rounding goes up to the next
exponent. -/
def ofSteps (m : ℕ) (e : ℤ) : Binary64 := if m = 2 ^ 53 then ⟨2 ^ 52, e + 1⟩ else ⟨m, e⟩

/-- A mantissa that is too large by one step is moved to the next exponent, with the same value. -/
theorem toRat_ofSteps (m : ℕ) (e : ℤ) : (ofSteps m e).toRat = m * 2 ^ e := by
  rw [ofSteps]
  split
  · next h =>
    rw [h, toRat, zpow_add_one₀ two_ne_zero]
    push_cast
    ring
  · rfl

theorem le_exponent_ofSteps (m : ℕ) (e : ℤ) : e ≤ (ofSteps m e).exponent := by
  rw [ofSteps]
  split
  · exact Int.le_add_one (Int.le_refl e)
  · exact Int.le_refl e

theorem exponent_ofSteps_le (m : ℕ) (e : ℤ) : (ofSteps m e).exponent ≤ e + 1 := by
  rw [ofSteps]
  split
  · exact Int.le_refl _
  · exact Int.le_add_one (Int.le_refl e)

/-- Steps of the grid are numbers of the format. -/
theorem canonical_ofSteps {m : ℕ} {e : ℤ} (hm : m ≤ 2 ^ 53) (hfull : 2 ^ 52 ≤ m ∨ e = minExponent)
    (he : minExponent ≤ e) (hmax : (ofSteps m e).exponent ≤ maxExponent) : (ofSteps m e).Canonical := by
  refine ⟨?_, he.trans (le_exponent_ofSteps m e), hmax, ?_⟩
  all_goals
    rw [ofSteps]
    split
  · norm_num
  · next hne => exact Nat.lt_of_le_of_ne hm hne
  · exact .inl (Nat.le_refl _)
  · exact hfull

/-! ## Rounding to the grid -/

section Rounding

variable {num den : ℕ} {x : Binary64}

/-- The fraction in steps of its grid, to the nearest. -/
def steps (num den : ℕ) : ℕ :=
  roundDiv (num * Nat.pow 2 (-gridExponent (num / den)).toNat)
    (den * Nat.pow 2 (gridExponent (num / den)).toNat)

/-- A fraction becomes the number of steps it is nearest to. -/
theorem ofFraction?_eq (hnum : 0 < num) (hden : 0 < den) : ofFraction? num den =
    if maxExponent < (ofSteps (steps num den) (gridExponent (num / den))).exponent then none
    else some (ofSteps (steps num den) (gridExponent (num / den))) := by
  rw [ofFraction?, if_neg hnum.ne', log2Fraction_eq hnum hden]
  rfl

theorem scaled_pos (hden : 0 < den) (e : ℤ) : 0 < den * Nat.pow 2 e.toNat :=
  Nat.mul_pos hden (Nat.pow_pos Nat.two_pos)

theorem abs_steps_sub_le (hden : 0 < den) :
    |(steps num den : ℚ) - num / den / 2 ^ gridExponent (num / den)| ≤ 1 / 2 := by
  have h := abs_roundDiv_sub_le (num * Nat.pow 2 (-gridExponent (num / den)).toNat)
    (scaled_pos hden (gridExponent (num / den)))
  rwa [scaled_div num den two_ne_zero, Nat.cast_ofNat] at h

theorem steps_eq_of_near (hden : 0 < den) {k : ℕ}
    (h : |(num : ℚ) / den / 2 ^ gridExponent (num / den) - k| < 1 / 2) : steps num den = k := by
  apply roundDiv_eq_of_near _ (scaled_pos hden _)
  rwa [scaled_div num den two_ne_zero, Nat.cast_ofNat]

/-- A positive rational is less than a full mantissa of its steps, and at least half a full one but for the
least exponent. -/
theorem div_gridExponent_bounds {q : ℚ} (hq : 0 < q) : q / 2 ^ gridExponent q < 2 ^ 53 ∧
    (2 ^ 52 ≤ q / 2 ^ gridExponent q ∨ gridExponent q = minExponent) := by
  have hpow : (0 : ℚ) < 2 ^ gridExponent q := by positivity
  constructor
  · rw [div_lt_iff₀ hpow, ← zpow_natCast, ← zpow_add₀ two_ne_zero, lt_two_zpow_iff hq, gridExponent]
    omega
  · by_cases hleast : gridExponent q = minExponent
    · exact .inr hleast
    · left
      rw [le_div_iff₀ hpow, ← zpow_natCast, ← zpow_add₀ two_ne_zero, two_zpow_le_iff hq]
      rw [gridExponent] at hleast ⊢
      omega

/-- The steps fill the mantissa, but for the smallest numbers. -/
theorem steps_bounds (hnum : 0 < num) (hden : 0 < den) : steps num den ≤ 2 ^ 53 ∧
    (2 ^ 52 ≤ steps num den ∨ gridExponent (num / den) = minExponent) := by
  have hq : (0 : ℚ) < num / den := by positivity
  obtain ⟨hlt, hge⟩ := div_gridExponent_bounds hq
  have hsteps := abs_le.1 (abs_steps_sub_le hden : |(steps num den : ℚ) - _| ≤ 1 / 2)
  constructor
  · have hcast : (steps num den : ℚ) < (2 ^ 53 + 1 : ℕ) := by
      push_cast
      linarith
    exact Nat.le_of_lt_succ (Nat.cast_lt.1 hcast)
  · rcases hge with hge | hleast
    · left
      have hcast : ((2 ^ 52 : ℕ) : ℚ) < (steps num den + 1 : ℕ) := by
        push_cast
        linarith
      exact Nat.le_of_lt_succ (Nat.cast_lt.1 hcast)
    · exact .inr hleast

theorem eq_ofSteps_of_ofFraction? (hnum : 0 < num) (hden : 0 < den) (h : ofFraction? num den = some x) :
    x = ofSteps (steps num den) (gridExponent (num / den)) ∧ x.exponent ≤ maxExponent := by
  rw [ofFraction?_eq hnum hden] at h
  split at h
  · cases h
  · next hmax =>
    obtain rfl := Option.some.inj h
    exact ⟨rfl, Int.not_lt.1 hmax⟩

/-- What a fraction is rounded to is a number of the format. -/
theorem canonical_of_ofFraction? (hden : 0 < den) (h : ofFraction? num den = some x) : x.Canonical := by
  rcases Nat.eq_zero_or_pos num with rfl | hnum
  · obtain rfl := Option.some.inj h
    exact canonical_zero
  · obtain ⟨rfl, hmax⟩ := eq_ofSteps_of_ofFraction? hnum hden h
    obtain ⟨hle, hfull⟩ := steps_bounds hnum hden
    exact canonical_ofSteps hle hfull (le_max_left _ _) hmax

/-- Rounding moves a fraction by half a step of its grid at most. -/
theorem abs_toRat_sub_le (hden : 0 < den) (h : ofFraction? num den = some x) :
    |x.toRat - num / den| ≤ 2 ^ gridExponent (num / den) / 2 := by
  rcases Nat.eq_zero_or_pos num with rfl | hnum
  · obtain rfl := Option.some.inj h
    rw [toRat_zero, Nat.cast_zero, zero_div, sub_zero, abs_zero]
    positivity
  · obtain ⟨rfl, -⟩ := eq_ofSteps_of_ofFraction? hnum hden h
    have hpow : (0 : ℚ) < 2 ^ gridExponent (num / den) := by positivity
    have hsteps := mul_le_mul_of_nonneg_right (abs_steps_sub_le hden : |(steps num den : ℚ) - _| ≤ 1 / 2)
      hpow.le
    rw [abs_sub_mul_of_pos hpow, div_mul_cancel₀ _ hpow.ne'] at hsteps
    rw [toRat_ofSteps]
    linarith

/-- Below a power of two the error is at most a half of the last place that is left there. -/
theorem abs_toRat_sub_le_of_lt (hden : 0 < den) (h : ofFraction? num den = some x) {n : ℤ}
    (hn : minExponent + 53 ≤ n) (hlt : (num : ℚ) / den < 2 ^ n) :
    |x.toRat - num / den| ≤ 2 ^ (n - 54) := by
  rcases Nat.eq_zero_or_pos num with rfl | hnum
  · obtain rfl := Option.some.inj h
    rw [toRat_zero, Nat.cast_zero, zero_div, sub_zero, abs_zero]
    positivity
  · have hq : (0 : ℚ) < num / den := by positivity
    have hlog := (lt_two_zpow_iff hq).1 hlt
    have hgrid : gridExponent (num / den) ≤ n - 54 + 1 := by
      rw [gridExponent]
      omega
    calc |x.toRat - num / den| ≤ 2 ^ gridExponent (num / den) / 2 := abs_toRat_sub_le hden h
      _ ≤ 2 ^ (n - 54 + 1) / 2 := by gcongr; norm_num
      _ = 2 ^ (n - 54) := by rw [zpow_add_one₀ two_ne_zero, mul_div_cancel_right₀ _ two_ne_zero]

/-- The relative error of a fraction that is not too small. -/
theorem abs_toRat_sub_le_mul (hden : 0 < den) (h : ofFraction? num den = some x)
    (hle : 2 ^ (minExponent + 52) ≤ (num : ℚ) / den) :
    |x.toRat - num / den| ≤ num / den * 2 ^ (-53 : ℤ) := by
  have hq : (0 : ℚ) < num / den := lt_of_lt_of_le (by positivity) hle
  have hlog := (two_zpow_le_iff hq).1 hle
  have hgrid : gridExponent ((num : ℚ) / den) = Int.log 2 ((num : ℚ) / den) + -53 + 1 := by
    rw [gridExponent]
    omega
  calc |x.toRat - num / den| ≤ 2 ^ gridExponent (num / den) / 2 := abs_toRat_sub_le hden h
    _ = 2 ^ Int.log 2 ((num : ℚ) / den) * 2 ^ (-53 : ℤ) := by
      rw [hgrid, zpow_add_one₀ two_ne_zero, mul_div_cancel_right₀ _ two_ne_zero,
        zpow_add₀ two_ne_zero]
    _ ≤ num / den * 2 ^ (-53 : ℤ) := by
      gcongr
      exact (two_zpow_le_iff hq).2 (Int.le_refl _)

/-- What is not too large is rounded to some number. -/
theorem exists_ofFraction?_eq_some (hden : 0 < den) (hlt : (num : ℚ) / den < 2 ^ (1023 : ℤ)) :
    ∃ x, ofFraction? num den = some x := by
  rcases Nat.eq_zero_or_pos num with rfl | hnum
  · exact ⟨zero, rfl⟩
  · have hq : (0 : ℚ) < num / den := by positivity
    have hlog := (lt_two_zpow_iff hq).1 hlt
    have hexponent := exponent_ofSteps_le (steps num den) (gridExponent (num / den))
    rw [ofFraction?_eq hnum hden, if_neg]
    · exact ⟨_, rfl⟩
    · have hmin : minExponent = -1074 := rfl
      have hmax : maxExponent = 971 := rfl
      rw [gridExponent] at hexponent ⊢
      omega

/-- Two fractions of one value are rounded alike. -/
theorem ofFraction?_congr {num' den' : ℕ} (hden : 0 < den) (hden' : 0 < den')
    (h : (num : ℚ) / den = num' / den') : ofFraction? num den = ofFraction? num' den' := by
  have hden_ne : (den : ℚ) ≠ 0 := by positivity
  have hden_ne' : (den' : ℚ) ≠ 0 := by positivity
  have hcross : num * den' = num' * den := by
    have := (div_eq_div_iff hden_ne hden_ne').1 h
    exact_mod_cast this
  rcases Nat.eq_zero_or_pos num with rfl | hnum
  · obtain rfl : num' = 0 := by
      rw [Nat.zero_mul, eq_comm, Nat.mul_eq_zero] at hcross
      exact hcross.resolve_right hden.ne'
    rfl
  · have hnum' : 0 < num' := by
      apply Nat.pos_of_ne_zero
      rintro rfl
      rw [Nat.zero_mul, Nat.mul_eq_zero] at hcross
      omega
    have hsteps : steps num den = steps num' den' := by
      rw [steps, steps, h]
      apply roundDiv_congr (scaled_pos hden _) (scaled_pos hden' _)
      rw [Nat.mul_mul_mul_comm, hcross, Nat.mul_mul_mul_comm]
    rw [ofFraction?_eq hnum hden, ofFraction?_eq hnum' hden', hsteps, h]

/-! ## Fractions close to a number -/

/-- Half the way down to the number below; a power of two has a closer one there than above. -/
def lowerGap (x : Binary64) : ℚ :=
  if x.mantissa = 2 ^ 52 ∧ minExponent < x.exponent then 2 ^ x.exponent / 4 else 2 ^ x.exponent / 2

theorem lowerGap_pos (x : Binary64) : 0 < x.lowerGap := by
  rw [lowerGap]
  split <;> positivity

theorem lowerGap_le (x : Binary64) : x.lowerGap ≤ 2 ^ x.exponent / 2 := by
  have hpow : (0 : ℚ) < 2 ^ x.exponent := by positivity
  rw [lowerGap]
  split <;> linarith

/-- The gaps are wide enough for seventeen digits: a number has at most `2 ^ 54` of its own. -/
theorem Canonical.toRat_le_mul_lowerGap (hx : x.Canonical) : x.toRat ≤ 2 ^ 54 * x.lowerGap := by
  have hpow : (0 : ℚ) < 2 ^ x.exponent := by positivity
  rw [toRat, lowerGap]
  split
  · next h =>
    rw [h.1]
    push_cast
    linarith
  · have hm : (x.mantissa : ℚ) < 2 ^ 53 := by exact_mod_cast hx.mantissa_lt
    nlinarith

theorem ofFraction?_of_gridExponent (hx : x.Canonical) (hnum : 0 < num) (hden : 0 < den)
    (hgrid : gridExponent ((num : ℚ) / den) = x.exponent)
    (hnear : |(num : ℚ) / den - x.toRat| < 2 ^ x.exponent / 2) : ofFraction? num den = some x := by
  have hpow : (0 : ℚ) < 2 ^ x.exponent := by positivity
  have hsteps : steps num den = x.mantissa := by
    apply steps_eq_of_near hden
    rw [hgrid, ← mul_lt_mul_iff_left₀ hpow, abs_sub_mul_of_pos hpow, div_mul_cancel₀ _ hpow.ne', ← toRat]
    linarith
  rw [ofFraction?_eq hnum hden, hsteps, hgrid, ofSteps, if_neg hx.mantissa_lt.ne,
    if_neg (Int.not_lt.2 hx.le_maxExponent)]

/-- Just below a power of two the grid is finer, and a full mantissa of it is carried. -/
theorem ofFraction?_below_power (hx : x.Canonical) (hm : x.mantissa = 2 ^ 52)
    (hleast : minExponent < x.exponent) (hnum : 0 < num) (hden : 0 < den)
    (hlow : x.toRat - 2 ^ x.exponent / 4 < num / den) (hhigh : (num : ℚ) / den < x.toRat) :
    ofFraction? num den = some x := by
  have hq : (0 : ℚ) < num / den := by positivity
  have hpow : (0 : ℚ) < 2 ^ (x.exponent - 1) := by positivity
  have hhalf : (2 : ℚ) ^ x.exponent = 2 ^ (x.exponent - 1) * 2 := by
    rw [← zpow_add_one₀ two_ne_zero, Int.sub_add_cancel]
  rw [toRat, hm, hhalf] at hlow hhigh
  push_cast at hlow hhigh
  have hlog : 52 + (x.exponent - 1) ≤ Int.log 2 ((num : ℚ) / den) := by
    rw [← two_zpow_le_iff hq, zpow_add₀ two_ne_zero]
    norm_cast
    push_cast
    linarith
  have hlog' : Int.log 2 ((num : ℚ) / den) < 53 + (x.exponent - 1) := by
    rw [← lt_two_zpow_iff hq, zpow_add₀ two_ne_zero]
    norm_cast
    push_cast
    linarith
  have hgrid : gridExponent ((num : ℚ) / den) = x.exponent - 1 := by
    rw [gridExponent]
    omega
  have hsteps : steps num den = 2 ^ 53 := by
    apply steps_eq_of_near hden
    rw [hgrid, ← mul_lt_mul_iff_left₀ hpow, abs_sub_mul_of_pos hpow, div_mul_cancel₀ _ hpow.ne', abs_lt]
    push_cast
    constructor <;> linarith
  rw [ofFraction?_eq hnum hden, hsteps, hgrid, ofSteps, if_pos rfl, Int.sub_add_cancel,
    if_neg (Int.not_lt.2 hx.le_maxExponent), ← hm]

/-- **Rounding to the nearest.** A fraction that lies closer to a number than half the way to its
neighbours is rounded to it. -/
theorem ofFraction?_of_near (hx : x.Canonical) (hnum : 0 < num) (hden : 0 < den)
    (hlow : x.toRat - x.lowerGap < num / den) (hhigh : (num : ℚ) / den < x.toRat + 2 ^ x.exponent / 2) :
    ofFraction? num den = some x := by
  have hq : (0 : ℚ) < num / den := by positivity
  have hpow : (0 : ℚ) < 2 ^ x.exponent := by positivity
  have hgap := x.lowerGap_le
  have hmin := hx.minExponent_le
  have hfull_eq : (2 : ℚ) ^ (52 + x.exponent) = 2 ^ 52 * 2 ^ x.exponent := by
    rw [zpow_add₀ two_ne_zero, zpow_ofNat]
  by_cases hsame : 2 ^ (52 + x.exponent) ≤ (num : ℚ) / den ∨ x.exponent = minExponent
  · -- the fraction has the grid of the number
    have hm : (x.mantissa : ℚ) + 1 ≤ 2 ^ 53 := by exact_mod_cast hx.mantissa_lt
    have hlt : (num : ℚ) / den < 2 ^ (53 + x.exponent) := by
      rw [zpow_add₀ two_ne_zero, zpow_ofNat]
      rw [toRat] at hhigh
      nlinarith
    have hlog := (lt_two_zpow_iff hq).1 hlt
    apply ofFraction?_of_gridExponent hx hnum hden
    · rw [gridExponent]
      rcases hsame with hfull | hleast
      · have hlog' := (two_zpow_le_iff hq).1 hfull
        omega
      · omega
    · rw [abs_lt]
      constructor <;> linarith
  · obtain ⟨hfull, hleast⟩ := not_or.1 hsame
    have hless := not_le.1 hfull
    rw [hfull_eq] at hless
    -- the number is a power of two, the least one of its grid
    have hm_ge : 2 ^ 52 ≤ x.mantissa := hx.full_or_least.resolve_right hleast
    have hm_lt : (x.mantissa : ℚ) < (2 ^ 52 + 1 : ℕ) := by
      rw [toRat] at hlow
      push_cast
      nlinarith
    have hm : x.mantissa = 2 ^ 52 := Nat.le_antisymm (Nat.le_of_lt_succ (Nat.cast_lt.1 hm_lt)) hm_ge
    have hmin' : minExponent < x.exponent := lt_of_le_of_ne hmin fun h => hleast h.symm
    rw [lowerGap, if_pos ⟨hm, hmin'⟩] at hlow
    apply ofFraction?_below_power hx hm hmin' hnum hden hlow
    rw [toRat, hm]
    exact_mod_cast hless

/-- The value of a number of the format is rounded to the number. -/
theorem ofFraction?_of_toRat (hx : x.Canonical) (hnum : 0 < num) (hden : 0 < den)
    (h : (num : ℚ) / den = x.toRat) : ofFraction? num den = some x := by
  have hpow : (0 : ℚ) < 2 ^ x.exponent := by positivity
  have hgap := x.lowerGap_pos
  apply ofFraction?_of_near hx hnum hden <;> linarith

/-- Below a number the grid has no longer steps than right below it. -/
theorem Canonical.half_step_le_lowerGap (hx : x.Canonical) {q : ℚ} (hq : 0 < q) (hlt : q < x.toRat) :
    2 ^ gridExponent q / 2 ≤ x.lowerGap := by
  have hm : (x.mantissa : ℚ) < 2 ^ 53 := by exact_mod_cast hx.mantissa_lt
  have hmin := hx.minExponent_le
  rw [toRat] at hlt
  rw [lowerGap]
  split
  · next hpower =>
    rw [hpower.1, Nat.cast_pow, Nat.cast_ofNat, ← zpow_natCast, ← zpow_add₀ two_ne_zero,
      lt_two_zpow_iff hq] at hlt
    have hgrid : gridExponent q ≤ x.exponent - 1 := by
      rw [gridExponent]
      omega
    have hpow : (2 : ℚ) ^ gridExponent q ≤ 2 ^ (x.exponent - 1) := zpow_le_zpow_right₀ one_le_two hgrid
    rw [zpow_sub_one₀ two_ne_zero] at hpow
    linarith
  · have hlt' : q < 2 ^ (53 + x.exponent) := by
      rw [zpow_add₀ two_ne_zero, zpow_ofNat]
      apply hlt.trans_le
      gcongr
    rw [lt_two_zpow_iff hq] at hlt'
    have hgrid : gridExponent q ≤ x.exponent := by
      rw [gridExponent]
      omega
    gcongr
    exact one_le_two

/-- A fraction that is less than half a step beyond a number is not rounded to anything beyond it. -/
theorem toRat_le_of_lt {z : Binary64} (hz : z.Canonical) (hden : 0 < den)
    (h : ofFraction? num den = some x) (hlt : (num : ℚ) / den < z.toRat + 2 ^ z.exponent / 2) :
    x.toRat ≤ z.toRat := by
  rcases Nat.eq_zero_or_pos num with rfl | hnum
  · obtain rfl := Option.some.inj h
    rw [toRat_zero]
    exact z.toRat_nonneg
  · by_cases hnear : z.toRat - z.lowerGap < num / den
    · obtain rfl : z = x := by
        rw [ofFraction?_of_near hz hnum hden hnear hlt] at h
        exact Option.some.inj h
      exact le_refl _
    · -- the error is no more than what is left up to the number
      have hq : (0 : ℚ) < num / den := by positivity
      have hfar := not_lt.1 hnear
      have hgap := z.lowerGap_pos
      have hstep := hz.half_step_le_lowerGap hq (by linarith)
      have hround := abs_le.1 (abs_toRat_sub_le hden h)
      linarith [hround.2]

/-- A natural number with a mantissa that is not too long stays as it is. -/
theorem toRat_of_natCast (hden : 0 < den) (h : ofFraction? num den = some x) {n : ℕ} (hn : n < 2 ^ 53)
    (heq : (num : ℚ) / den = n) : x.toRat = n := by
  rcases Nat.eq_zero_or_pos num with rfl | hnum
  · obtain rfl := Option.some.inj h
    rw [toRat_zero, ← heq, Nat.cast_zero, zero_div]
  · have hq : (0 : ℚ) < num / den := by positivity
    have hlt : (num : ℚ) / den < 2 ^ (53 : ℤ) := by
      rw [heq]
      exact_mod_cast hn
    have hlog := (lt_two_zpow_iff hq).1 hlt
    -- the steps of the grid are no longer than one
    obtain ⟨j, hj⟩ : ∃ j : ℕ, gridExponent (num / den) = -(j : ℤ) := by
      refine ⟨(-gridExponent (num / den)).toNat, ?_⟩
      have hmin : minExponent = -1074 := rfl
      rw [gridExponent]
      omega
    have hscaled : (num : ℚ) / den / 2 ^ gridExponent (num / den) = (n * 2 ^ j : ℕ) := by
      rw [hj, zpow_neg, zpow_natCast, div_inv_eq_mul, heq]
      push_cast
      rfl
    have hsteps : steps num den = n * 2 ^ j := by
      apply steps_eq_of_near hden
      rw [hscaled, sub_self, abs_zero]
      norm_num
    obtain ⟨rfl, -⟩ := eq_ofSteps_of_ofFraction? hnum hden h
    rw [toRat_ofSteps, hsteps, ← hscaled, div_mul_cancel₀ _ (by positivity), heq]

/-- A sum is rounded like a fraction of its value. -/
theorem exists_add?_eq (x y : Binary64) : ∃ num den : ℕ, 0 < den ∧
    (num : ℚ) / den = x.toRat + y.toRat ∧ x.add? y = ofFraction? num den := by
  have hx : (x.toFraction.2 : ℚ) ≠ 0 := Nat.cast_ne_zero.2 x.toFraction_pos.ne'
  have hy : (y.toFraction.2 : ℚ) ≠ 0 := Nat.cast_ne_zero.2 y.toFraction_pos.ne'
  refine ⟨x.toFraction.1 * y.toFraction.2 + y.toFraction.1 * x.toFraction.2,
    x.toFraction.2 * y.toFraction.2, Nat.mul_pos x.toFraction_pos y.toFraction_pos, ?_, rfl⟩
  rw [← x.toFraction_div, ← y.toFraction_div, div_add_div _ _ hx hy]
  push_cast
  ring

end Rounding

end Binary64

end SlotQuery
