import Mathlib.Data.Nat.Cast.Order.Field
import SlotQuery.Decimal.Shortest
import SlotQuery.Proofs.Decimal.Rounding

/-!
# Reading numbers back

A numeral stands for a rational, and which numeral it is does not matter for the binary number nearest to it
(`toBinary64?_congr`). Seventeen digits tell every number from its neighbours, so the shortest form always
exists and reads back (`toBinary64?_shortest`).
-/

namespace SlotQuery

namespace Numeral

/-- The absolute value as a rational. -/
def value (d : Numeral) : ℚ := d.digits * 10 ^ d.exponent

/-! ## The number of digits -/

theorem lt_pow_digitCount {n : ℕ} (hn : 0 < n) : n < 10 ^ digitCount n := by
  rw [digitCount, if_neg hn.ne']
  exact (Nat.length_toDigits_le_iff (by decide) Nat.length_toDigits_pos).1 (Nat.le_refl _)

theorem pow_digitCount_le {n : ℕ} (hn : 0 < n) : 10 ^ (digitCount n - 1) ≤ n := by
  rw [digitCount, if_neg hn.ne']
  rcases Nat.eq_zero_or_pos ((Nat.toDigits 10 n).length - 1) with hzero | hpos
  · rw [hzero]
    exact hn
  · by_contra hlt
    have hle := (Nat.length_toDigits_le_iff (by decide) hpos).2 (Nat.lt_of_not_le hlt)
    omega

theorem digitCount_pos {n : ℕ} (hn : 0 < n) : 0 < digitCount n := by
  rw [digitCount, if_neg hn.ne']
  exact Nat.length_toDigits_pos

theorem ten_zpow_le_iff {q : ℚ} (hq : 0 < q) {e : ℤ} : (10 : ℚ) ^ e ≤ q ↔ e ≤ Int.log 10 q := by
  rw [← Int.zpow_le_iff_le_log (by decide : 1 < 10) hq, Nat.cast_ofNat]

theorem lt_ten_zpow_iff {q : ℚ} (hq : 0 < q) {e : ℤ} : q < (10 : ℚ) ^ e ↔ Int.log 10 q < e := by
  rw [← Int.lt_zpow_iff_log_lt (by decide : 1 < 10) hq, Nat.cast_ofNat]

/-- The number of digits is told by the logarithm. -/
theorem digitCount_eq {n : ℕ} (hn : 0 < n) : (digitCount n : ℤ) = Int.log 10 (n : ℚ) + 1 := by
  have hn' : (0 : ℚ) < n := by exact_mod_cast hn
  have hpos := digitCount_pos hn
  have hlt : (n : ℚ) < 10 ^ (digitCount n : ℤ) := by exact_mod_cast lt_pow_digitCount hn
  have hle : (10 : ℚ) ^ ((digitCount n - 1 : ℕ) : ℤ) ≤ n := by exact_mod_cast pow_digitCount_le hn
  rw [lt_ten_zpow_iff hn'] at hlt
  rw [ten_zpow_le_iff hn'] at hle
  omega

/-- A shift by places shifts the logarithm. -/
theorem log_mul_zpow {q : ℚ} (hq : 0 < q) (e : ℤ) : Int.log 10 (q * 10 ^ e) = Int.log 10 q + e := by
  have hpow : (0 : ℚ) < 10 ^ e := by positivity
  have hlt : q * 10 ^ e < 10 ^ (Int.log 10 q + 1 + e) := by
    rw [zpow_add₀ (by norm_num), mul_lt_mul_iff_left₀ hpow, lt_ten_zpow_iff hq]
    exact Int.lt_add_one_of_le (Int.le_refl _)
  have hle : (10 : ℚ) ^ (Int.log 10 q + e) ≤ q * 10 ^ e := by
    rw [zpow_add₀ (by norm_num), mul_le_mul_iff_left₀ hpow, ten_zpow_le_iff hq]
  rw [lt_ten_zpow_iff (by positivity)] at hlt
  rw [ten_zpow_le_iff (by positivity)] at hle
  omega

variable {d d' : Numeral} {x : Binary64}

theorem value_pos_iff : 0 < d.value ↔ 0 < d.digits := by
  rw [value]
  have hpow : (0 : ℚ) < 10 ^ d.exponent := by positivity
  rw [mul_pos_iff_of_pos_right hpow, Nat.cast_pos]

/-- The power of ten at or below a numeral tells its size. -/
theorem size_eq (h : 0 < d.digits) : (digitCount d.digits : ℤ) + d.exponent = Int.log 10 d.value + 1 := by
  rw [value, log_mul_zpow (by exact_mod_cast h), digitCount_eq h]
  omega

/-- The fraction that a numeral is rounded from is its value. -/
theorem fraction_eq (d : Numeral) :
    ((d.digits * Nat.pow 10 d.exponent.toNat : ℕ) : ℚ) / (Nat.pow 10 (-d.exponent).toNat : ℕ) = d.value := by
  rw [value, ← pow_toNat_div (by norm_num : (10 : ℚ) ≠ 0)]
  push_cast [Nat.pow_eq]
  rw [mul_div_assoc]

/-! ## The binary number nearest to a numeral -/

theorem toBinary64?_of_digits_eq (h : d.digits = 0) : d.toBinary64? = some .zero := by
  simp [toBinary64?, h]

/-- Too small and too large are told by the logarithm of the value. -/
theorem toBinary64?_eq (h : 0 < d.digits) : d.toBinary64? =
    if Int.log 10 d.value + 1 < -330 then some .zero
    else if 310 < Int.log 10 d.value + 1 then none
    else Binary64.ofFraction? (d.digits * Nat.pow 10 d.exponent.toNat) (Nat.pow 10 (-d.exponent).toNat) := by
  simp [toBinary64?, size_eq h, h.ne']

/-- Numerals of one value are read alike. -/
theorem toBinary64?_congr (h : d.value = d'.value) : d.toBinary64? = d'.toBinary64? := by
  rcases Nat.eq_zero_or_pos d.digits with hzero | hpos
  · have hzero' : d'.digits = 0 := by
      by_contra hne
      have hpos' := value_pos_iff.2 (Nat.pos_of_ne_zero hne)
      rw [← h, value_pos_iff] at hpos'
      omega
    rw [toBinary64?_of_digits_eq hzero, toBinary64?_of_digits_eq hzero']
  · have hpos' : 0 < d'.digits := by
      rwa [← value_pos_iff, ← h, value_pos_iff]
    rw [toBinary64?_eq hpos, toBinary64?_eq hpos', h, Binary64.ofFraction?_congr]
    · exact Nat.pow_pos (by decide)
    · exact Nat.pow_pos (by decide)
    · rw [fraction_eq, fraction_eq, h]

/-- Only numbers of the format are read. -/
theorem canonical_of_toBinary64? (h : d.toBinary64? = some x) : x.Canonical := by
  rcases Nat.eq_zero_or_pos d.digits with hzero | hpos
  · rw [toBinary64?_of_digits_eq hzero, Option.some_inj] at h
    exact h ▸ Binary64.canonical_zero
  · rw [toBinary64?_eq hpos] at h
    split at h
    · exact Option.some.inj h ▸ Binary64.canonical_zero
    · split at h
      · cases h
      · exact Binary64.canonical_of_ofFraction? (Nat.pow_pos (by decide)) h

/-- A numeral that lies closer to a number than half the way to its neighbours is read as it. -/
theorem toBinary64?_of_near (hx : x.Canonical) (hm : 0 < x.mantissa) (hd : 0 < d.digits)
    (hnear : |d.value - x.toRat| < x.lowerGap) : d.toBinary64? = some x := by
  have hpow : (0 : ℚ) < 2 ^ x.exponent := by positivity
  have hgap := x.lowerGap_le
  have hvalue := value_pos_iff.2 hd
  have hm_ge : (1 : ℚ) ≤ x.mantissa := by exact_mod_cast hm
  have hm_le : (x.mantissa : ℚ) + 1 ≤ 2 ^ 53 := by exact_mod_cast hx.mantissa_lt
  rw [abs_lt] at hnear
  have hgreater : x.toRat - x.lowerGap < d.value := by linarith
  have hless : d.value < x.toRat + 2 ^ x.exponent / 2 := by linarith
  -- the sizes at which the value does not matter are out of reach
  have hlow : -331 ≤ Int.log 10 d.value := by
    rw [← ten_zpow_le_iff hvalue]
    calc (10 : ℚ) ^ (-331 : ℤ) ≤ 2 ^ (-1074 : ℤ) / 2 := by
          have hle : (2 : ℕ) ^ 1075 ≤ 10 ^ 331 := by decide +kernel
          have hle' : (2 : ℚ) ^ 1075 ≤ 10 ^ 331 := by exact_mod_cast hle
          rw [div_eq_mul_inv, ← zpow_sub_one₀ two_ne_zero]
          exact inv_anti₀ (by positivity) hle'
      _ ≤ 2 ^ x.exponent / 2 := by
        gcongr
        · norm_num
        · exact hx.minExponent_le
      _ ≤ d.value := by
        rw [Binary64.toRat] at hgreater
        nlinarith
  have hhigh : Int.log 10 d.value < 309 := by
    rw [← lt_ten_zpow_iff hvalue]
    calc d.value < 2 ^ 53 * 2 ^ x.exponent := by
          rw [Binary64.toRat] at hless
          nlinarith
      _ ≤ 2 ^ 53 * 2 ^ (971 : ℤ) := by
        gcongr
        · norm_num
        · exact hx.le_maxExponent
      _ ≤ 10 ^ (309 : ℤ) := by
        have hle : (2 : ℕ) ^ 53 * 2 ^ 971 ≤ 10 ^ 309 := by decide +kernel
        exact_mod_cast hle
  rw [toBinary64?_eq hd, if_neg (by omega), if_neg (by omega)]
  apply Binary64.ofFraction?_of_near hx
  · exact Nat.mul_pos hd (Nat.pow_pos (by decide))
  · exact Nat.pow_pos (by decide)
  · rwa [fraction_eq]
  · rwa [fraction_eq]

end Numeral

namespace Binary64

open Numeral

variable {x : Binary64} {d : Numeral} {n : ℕ}

/-! ## Seventeen digits -/

theorem ten_zpow_log10Fraction_le {num den : ℕ} (hnum : 0 < num) (hden : 0 < den) :
    (10 : ℚ) ^ log10Fraction num den ≤ num / den := by
  have hden' : (0 : ℚ) < den := by exact_mod_cast hden
  rw [log10Fraction]
  split
  · next hle =>
    have hquotient : 0 < num / den := Nat.div_pos hle hden
    rw [digitCount_eq hquotient, add_sub_cancel_right]
    calc (10 : ℚ) ^ Int.log 10 ((num / den : ℕ) : ℚ) ≤ (num / den : ℕ) := by
          rw [ten_zpow_le_iff (by exact_mod_cast hquotient)]
      _ ≤ num / den := Nat.cast_div_le
  · next hlt =>
    -- the quotient the other way round, rounded up
    have hceil : den ≤ (den + num - 1) / num * num := by
      have := Nat.div_add_mod' (den + num - 1) num
      have := Nat.mod_lt (den + num - 1) hnum
      omega
    have hquotient : 0 < (den + num - 1) / num - 1 := by
      by_contra hnot
      have hle : (den + num - 1) / num ≤ 1 := by omega
      have := Nat.mul_le_mul_right num hle
      omega
    have hlt' := lt_pow_digitCount hquotient
    generalize digitCount ((den + num - 1) / num - 1) = k at hlt' ⊢
    have hmul : den ≤ 10 ^ k * num := hceil.trans (Nat.mul_le_mul_right num (by omega))
    have hmul' : (den : ℚ) ≤ 10 ^ k * num := by exact_mod_cast hmul
    rw [zpow_neg, zpow_natCast, le_div_iff₀ hden', inv_mul_le_iff₀ (by positivity)]
    exact hmul'

/-- The nearer one of the two natural numbers next to a quotient. -/
theorem abs_nearer_sub_le (num : ℕ) {den : ℕ} (h : 0 < den) :
    |((if 2 * (num % den) < den then num / den else num / den + 1 : ℕ) : ℚ) - num / den| ≤ 1 / 2 := by
  have hden : (0 : ℚ) < den := by exact_mod_cast h
  have hnum : (num : ℚ) = (num / den : ℕ) * den + (num % den : ℕ) := by
    exact_mod_cast (Nat.div_add_mod' num den).symm
  have hmod : ((num % den : ℕ) : ℚ) < den := by exact_mod_cast Nat.mod_lt num h
  have hquotient : (num : ℚ) / den = (num / den : ℕ) + (num % den : ℕ) / den := by
    rw [div_eq_iff hden.ne', add_mul, div_mul_cancel₀ _ hden.ne', ← hnum]
  rw [hquotient, abs_le]
  split
  · next hless =>
    have hless' : (2 : ℚ) * (num % den : ℕ) < den := by exact_mod_cast hless
    have hfrac : ((num % den : ℕ) : ℚ) / den ≤ 1 / 2 := by
      rw [div_le_div_iff₀ hden two_pos]
      linarith
    have hfrac' : (0 : ℚ) ≤ ((num % den : ℕ) : ℚ) / den := by positivity
    constructor <;> linarith
  · next hmore =>
    have hmore' : (den : ℚ) ≤ 2 * (num % den : ℕ) := by exact_mod_cast Nat.le_of_not_lt hmore
    have hfrac : 1 / 2 ≤ ((num % den : ℕ) : ℚ) / den := by
      rw [div_le_div_iff₀ two_pos hden]
      linarith
    have hfrac' : ((num % den : ℕ) : ℚ) / den ≤ 1 := (div_le_one hden).2 hmod.le
    push_cast
    constructor <;> linarith

/-- The nearest numeral of some digits is taken only if it reads back. -/
theorem toBinary64?_of_nearest? (h : x.nearest? n = some d) :
    d.negative = false ∧ d.toBinary64? = some x := by
  simp only [nearest?, Option.map_eq_some_iff] at h
  obtain ⟨digits, hfound, rfl⟩ := h
  have hreads := List.find?_some hfound
  exact ⟨rfl, beq_iff_eq.1 hreads⟩

/-- Half a unit of the seventeenth digit is less than half the way to the next number. -/
theorem readsBack_of_near (hx : x.Canonical) (hm : 0 < x.mantissa) {k : ℕ} {e : ℤ}
    (hlarge : 10 ^ 16 * 10 ^ e ≤ x.toRat) (hk : |(k : ℚ) - x.toRat / 10 ^ e| ≤ 1 / 2) :
    x.readsBack k e = true := by
  have hpow : (0 : ℚ) < 10 ^ e := by positivity
  have hgap := hx.toRat_le_mul_lowerGap
  have hgap_pos := x.lowerGap_pos
  have hdigits : 0 < k := by
    have hlarge' : 10 ^ 16 ≤ x.toRat / 10 ^ e := (le_div_iff₀ hpow).2 hlarge
    have hk' : (0 : ℚ) < k := by
      rw [abs_le] at hk
      linarith
    exact_mod_cast hk'
  have hvalue : (⟨false, k, e⟩ : Numeral).value = k * 10 ^ e := rfl
  have hnear : |(k : ℚ) * 10 ^ e - x.toRat| ≤ 10 ^ e / 2 := by
    have hmul := mul_le_mul_of_nonneg_right hk hpow.le
    rw [abs_sub_mul_of_pos hpow, div_mul_cancel₀ _ hpow.ne'] at hmul
    linarith
  rw [readsBack, beq_iff_eq]
  apply toBinary64?_of_near hx hm hdigits
  rw [hvalue]
  linarith

/-- Seventeen digits are always enough. -/
theorem exists_nearest?_seventeen (hx : x.Canonical) (hm : 0 < x.mantissa) :
    ∃ d, x.nearest? 17 = some d := by
  have hden := x.toFraction_pos
  have hfraction := x.toFraction_div
  have hnum : 0 < x.toFraction.1 := Nat.mul_pos hm (Nat.pow_pos (by decide))
  have hlog := ten_zpow_log10Fraction_le hnum hden
  rw [hfraction] at hlog
  simp only [nearest?]
  generalize x.toFraction.1 = num at *
  generalize x.toFraction.2 = den at *
  generalize he : log10Fraction num den - (17 : ℕ) + 1 = e
  have hlarge : 10 ^ 16 * 10 ^ e ≤ x.toRat := by
    have hlog_eq : log10Fraction num den = (16 : ℕ) + e := by
      omega
    rwa [hlog_eq, zpow_add₀ (by norm_num), zpow_natCast] at hlog
  have hscaled := scaled_div num den (by decide : 10 ≠ 0) e
  rw [hfraction, Nat.cast_ofNat] at hscaled
  have hden' : 0 < den * Nat.pow 10 e.toNat := Nat.mul_pos hden (Nat.pow_pos (by decide))
  have hnearer := abs_nearer_sub_le (num * Nat.pow 10 (-e).toNat) hden'
  rw [hscaled] at hnearer
  have hreads := readsBack_of_near hx hm hlarge hnearer
  -- the nearer one of the two candidates comes first
  split at hreads
  · next hless =>
    rw [if_pos hless]
    exact ⟨_, Option.map_eq_some_iff.2 ⟨_, List.find?_cons_of_pos hreads, rfl⟩⟩
  · next hmore =>
    rw [if_neg hmore]
    exact ⟨_, Option.map_eq_some_iff.2 ⟨_, List.find?_cons_of_pos hreads, rfl⟩⟩

/-- **The shortest form reads back.** -/
theorem toBinary64?_shortest (hx : x.Canonical) :
    x.shortest.negative = false ∧ x.shortest.toBinary64? = some x := by
  rcases Nat.eq_zero_or_pos x.mantissa with hzero | hm
  · have hexponent : x.exponent = minExponent := hx.full_or_least.resolve_left (by omega)
    obtain ⟨mantissa, exponent⟩ := x
    obtain rfl : mantissa = 0 := hzero
    obtain rfl : exponent = minExponent := hexponent
    exact ⟨rfl, rfl⟩
  · rw [shortest, if_neg hm.ne']
    obtain ⟨d, hd⟩ := exists_nearest?_seventeen hx hm
    cases hfirst : (List.range 17).findSome? fun n => x.nearest? (n + 1) with
    | none =>
      have hnone := List.findSome?_eq_none_iff.1 hfirst 16 (by decide)
      rw [hd] at hnone
      cases hnone
    | some d' =>
      obtain ⟨n, -, hn⟩ := List.exists_of_findSome?_eq_some hfirst
      exact toBinary64?_of_nearest? hn

end Binary64

end SlotQuery
