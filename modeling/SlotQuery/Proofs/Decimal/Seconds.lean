import SlotQuery.Duration
import SlotQuery.Proofs.Decimal.Rounding

/-!
# Spans of time as seconds

A span goes to seconds by three roundings, of its whole seconds, of the fraction and of their sum
(`exists_toSeconds`), and back by one to the nearest nanosecond. It comes back unchanged if it has up to
`2 ^ 23` seconds (`ofSeconds?_toSeconds_of_le`), or if it came from seconds in the first place
(`ofSeconds?_toSeconds_of_ofSeconds?`). Any other span comes back almost unchanged (`toSeconds_near`).
-/

namespace SlotQuery

/-- A number beyond `2 ^ 23` that is not a whole one has a step that is a fraction, but no finer one than this,
and is not a power of two. -/
theorem Binary64.Canonical.exponent_of_fractional {x : Binary64} (hx : x.Canonical) (hlarge : 2 ^ 23 < x.toRat)
    (hwhole : ¬ ∃ n : ℕ, x.toRat = n) : -29 ≤ x.exponent ∧ x.exponent < 0 ∧ x.mantissa ≠ 2 ^ 52 := by
  have hm : (x.mantissa : ℚ) < 2 ^ 53 := by exact_mod_cast hx.mantissa_lt
  have hpow : (0 : ℚ) < 2 ^ x.exponent := by positivity
  have hleast : -29 ≤ x.exponent := by
    by_contra hless
    have hpow_le : (2 : ℚ) ^ x.exponent ≤ 2 ^ (-30 : ℤ) := zpow_le_zpow_right₀ one_le_two (by omega)
    have hsmall : x.toRat ≤ 2 ^ 53 * 2 ^ (-30 : ℤ) := by
      rw [toRat]
      gcongr
    norm_num at hsmall hlarge
    linarith
  refine ⟨hleast, ?_, ?_⟩
  · by_contra hnonneg
    obtain ⟨n, hn⟩ := Int.eq_ofNat_of_zero_le (Int.not_lt.1 hnonneg)
    apply hwhole
    refine ⟨x.mantissa * 2 ^ n, ?_⟩
    rw [toRat, hn]
    push_cast
    rw [zpow_natCast]
  · intro hpower
    obtain ⟨n, hn⟩ := Int.eq_ofNat_of_zero_le (by omega : 0 ≤ 52 + x.exponent)
    apply hwhole
    refine ⟨2 ^ n, ?_⟩
    have hsplit : (2 : ℚ) ^ (52 + x.exponent) = 2 ^ 52 * 2 ^ x.exponent := by
      rw [zpow_add₀ two_ne_zero, zpow_ofNat]
    rw [toRat, hpower, Nat.cast_pow, Nat.cast_ofNat, Nat.cast_pow, Nat.cast_ofNat, ← hsplit, hn, zpow_natCast]

namespace Duration

open Binary64

variable {d : Duration} {x : Binary64}

/-- The span in seconds as a rational. -/
def toRat (d : Duration) : ℚ := d.nanos / perSecond

theorem cast_perSecond : (perSecond : ℚ) = 10 ^ 9 := by norm_num [perSecond]

theorem perSecond_pos : (0 : ℚ) < perSecond := by norm_num [perSecond]

theorem toRat_mul_perSecond (d : Duration) : d.toRat * perSecond = d.nanos :=
  div_mul_cancel₀ _ perSecond_pos.ne'

/-- A span in seconds, and a part of a second. -/
theorem toRat_eq (d : Duration) : d.toRat = d.secs + (d.subsecNanos : ℚ) / perSecond := by
  have hsplit : d.nanos = d.secs * perSecond + d.subsecNanos := (Nat.div_add_mod' _ _).symm
  rw [toRat, hsplit]
  push_cast
  rw [cast_perSecond]
  ring

theorem secs_le_toRat (d : Duration) : (d.secs : ℚ) ≤ d.toRat := by
  rw [toRat_eq]
  exact le_add_of_nonneg_right (by positivity)

theorem subsecNanos_lt (d : Duration) : d.subsecNanos < perSecond := Nat.mod_lt _ (by decide)

/-! ## From seconds -/

/-- Seconds become nanoseconds by rounding, if these are not too many. -/
theorem ofSeconds?_eq_some_iff : ofSeconds? x = some d ↔
    roundDiv (x.toFraction.1 * perSecond) x.toFraction.2 = d.nanos ∧ d.nanos < secsLimit * perSecond := by
  obtain ⟨nanos⟩ := d
  simp only [ofSeconds?]
  split
  · next h =>
    rw [Option.some_inj, Duration.mk.injEq]
    constructor
    · rintro rfl
      exact ⟨rfl, h⟩
    · exact And.left
  · next h =>
    simp only [reduceCtorEq, false_iff, not_and]
    rintro rfl
    exact h

theorem seconds_div (x : Binary64) :
    ((x.toFraction.1 * perSecond : ℕ) : ℚ) / x.toFraction.2 = x.toRat * perSecond := by
  rw [← x.toFraction_div]
  push_cast
  ring

/-- Rounding moves a span by half a nanosecond at most. -/
theorem abs_nanos_sub_le (h : ofSeconds? x = some d) : |(d.nanos : ℚ) - x.toRat * perSecond| ≤ 1 / 2 := by
  have hround := abs_roundDiv_sub_le (x.toFraction.1 * perSecond) x.toFraction_pos
  rwa [(ofSeconds?_eq_some_iff.1 h).1, seconds_div] at hround

theorem abs_toRat_sub_toRat_le (h : ofSeconds? x = some d) : |d.toRat - x.toRat| ≤ 1 / 2 / 10 ^ 9 := by
  rw [← cast_perSecond, le_div_iff₀ perSecond_pos, abs_sub_mul_of_pos perSecond_pos, toRat_mul_perSecond]
  exact abs_nanos_sub_le h

/-- Seconds that lie closer than that to a span become this span. -/
theorem ofSeconds?_of_near (hd : d.nanos < secsLimit * perSecond)
    (h : |x.toRat * perSecond - d.nanos| < 1 / 2) : ofSeconds? x = some d := by
  refine ofSeconds?_eq_some_iff.2 ⟨?_, hd⟩
  apply roundDiv_eq_of_near _ x.toFraction_pos
  rwa [seconds_div]

/-- The greatest number of seconds of which there is a span. -/
def mostSeconds : Binary64 := ⟨2 ^ 53 - 1, 11⟩

theorem canonical_mostSeconds : mostSeconds.Canonical :=
  ⟨by decide, by decide, by decide, by decide⟩

theorem toRat_mostSeconds : mostSeconds.toRat = (2 ^ 53 - 1) * 2 ^ 11 := by
  norm_num [mostSeconds, Binary64.toRat]

/-- The longest span that seconds give. -/
def longest : Duration := ofSecs ((2 ^ 53 - 1) * 2 ^ 11)

/-- The longest span is a number of seconds of the format. -/
theorem longest_toRat : longest.toRat = mostSeconds.toRat := by
  rw [toRat_mostSeconds, toRat]
  norm_num [longest, ofSecs, ofParts, perSecond]

theorem toRat_le_longest (h : d.nanos ≤ longest.nanos) : d.toRat ≤ mostSeconds.toRat := by
  rw [← longest_toRat, toRat, toRat]
  gcongr

theorem cast_secsLimit : (secsLimit : ℚ) = 2 ^ 64 := by norm_num [secsLimit, UInt64.size]

/-- A number of seconds up to the greatest one gives a span. -/
theorem exists_ofSeconds? (h : x.toRat ≤ mostSeconds.toRat) : ∃ d, ofSeconds? x = some d := by
  have hround := abs_roundDiv_sub_le (x.toFraction.1 * perSecond) x.toFraction_pos
  rw [seconds_div, cast_perSecond, abs_le] at hround
  rw [toRat_mostSeconds] at h
  generalize hnanos : roundDiv (x.toFraction.1 * perSecond) x.toFraction.2 = nanos at hround
  refine ⟨⟨nanos⟩, ofSeconds?_eq_some_iff.2 ⟨hnanos, ?_⟩⟩
  show nanos < secsLimit * perSecond
  rw [← @Nat.cast_lt ℚ, Nat.cast_mul, cast_secsLimit, cast_perSecond]
  linarith [hround.2]

theorem mantissa_pos_of_ofSeconds? (h : ofSeconds? x = some d) (hd : d ≠ zero) : 0 < x.mantissa := by
  apply Nat.pos_of_ne_zero
  intro hzero
  have hnanos := (ofSeconds?_eq_some_iff.1 h).1
  rw [toFraction, hzero, Nat.zero_mul, Nat.zero_mul] at hnanos
  apply hd
  show ⟨d.nanos⟩ = zero
  rw [← hnanos]
  simp [roundDiv, zero]

/-- A number of seconds of which there is a span is not beyond the greatest one. -/
theorem toRat_le_mostSeconds (hx : x.Canonical) (h : ofSeconds? x = some d) :
    x.toRat ≤ mostSeconds.toRat := by
  have hm : (x.mantissa : ℚ) + 1 ≤ 2 ^ 53 := by exact_mod_cast hx.mantissa_lt
  rw [toRat_mostSeconds, Binary64.toRat]
  by_cases hexponent : x.exponent ≤ 11
  · have hpow : (2 : ℚ) ^ x.exponent ≤ 2 ^ (11 : ℤ) := zpow_le_zpow_right₀ (by norm_num) hexponent
    have hpos : (0 : ℚ) < 2 ^ x.exponent := by positivity
    rw [zpow_ofNat] at hpow
    nlinarith
  · -- the seconds would not fit
    exfalso
    have hleast : x.exponent ≠ minExponent := by
      intro heq
      have hmin : minExponent = -1074 := rfl
      omega
    have hm_ge : (2 : ℚ) ^ 52 ≤ x.mantissa := by exact_mod_cast hx.full_or_least.resolve_right hleast
    have hpow : (2 : ℚ) ^ (12 : ℤ) ≤ 2 ^ x.exponent := zpow_le_zpow_right₀ (by norm_num) (by omega)
    have hlarge : (2 : ℚ) ^ 52 * 2 ^ 12 ≤ x.toRat := by
      rw [zpow_ofNat] at hpow
      rw [Binary64.toRat]
      gcongr
    have hlt := (ofSeconds?_eq_some_iff.1 h).2
    rw [← Nat.add_one_le_iff, ← @Nat.cast_le ℚ, Nat.cast_mul, cast_secsLimit, cast_perSecond] at hlt
    push_cast at hlt
    have hnear := abs_le.1 (abs_nanos_sub_le h)
    rw [cast_perSecond] at hnear
    linarith [hnear.1]

/-- No number of the format gives a longer span. -/
theorem nanos_le_longest (hx : x.Canonical) (h : ofSeconds? x = some d) : d.nanos ≤ longest.nanos := by
  have hle := toRat_le_mostSeconds hx h
  have hnear := abs_le.1 (abs_nanos_sub_le h)
  have hlongest := longest.toRat_mul_perSecond
  rw [longest_toRat] at hlongest
  have hlt : (d.nanos : ℚ) < longest.nanos + 1 := by
    rw [← hlongest]
    have hmul := mul_le_mul_of_nonneg_right hle perSecond_pos.le
    linarith [hnear.2]
  have hlt' : d.nanos < longest.nanos + 1 := by exact_mod_cast hlt
  exact Nat.le_of_lt_succ hlt'

/-! ## To seconds -/

/-- The whole seconds, the fraction, and the sum of the two before it is rounded as well. -/
theorem exists_toSeconds (hd : d.secs < 2 ^ 64) : ∃ whole frac : Binary64, ∃ num den : ℕ,
    ofFraction? d.secs 1 = some whole ∧ ofFraction? d.subsecNanos perSecond = some frac ∧ 0 < den ∧
      (num : ℚ) / den = whole.toRat + frac.toRat ∧ ofFraction? num den = some d.toSeconds := by
  have hperSecond : 0 < perSecond := by decide
  have hsecs : (d.secs : ℚ) / (1 : ℕ) < 2 ^ (64 : ℤ) := by
    rw [Nat.cast_one, div_one]
    exact_mod_cast hd
  have hsubsec : (d.subsecNanos : ℚ) / perSecond < 2 ^ (0 : ℤ) := by
    rw [zpow_zero, div_lt_one (by exact_mod_cast hperSecond)]
    exact_mod_cast d.subsecNanos_lt
  have hpow : ∀ n : ℤ, n ≤ 1023 → (2 : ℚ) ^ n ≤ 2 ^ (1023 : ℤ) := fun n hn =>
    zpow_le_zpow_right₀ (by norm_num) hn
  obtain ⟨whole, hwhole⟩ := exists_ofFraction?_eq_some Nat.one_pos (hsecs.trans_le (hpow 64 (by decide)))
  obtain ⟨frac, hfrac⟩ := exists_ofFraction?_eq_some hperSecond (hsubsec.trans_le (hpow 0 (by decide)))
  obtain ⟨num, den, hden, hsum, hadd⟩ := exists_add?_eq whole frac
  have hlt : (num : ℚ) / den < 2 ^ (1023 : ℤ) := by
    have hwhole_near := abs_le.1 (abs_toRat_sub_le_of_lt Nat.one_pos hwhole (by decide) hsecs)
    have hfrac_near := abs_le.1 (abs_toRat_sub_le_of_lt hperSecond hfrac (by decide) hsubsec)
    rw [Nat.cast_one, div_one] at hwhole_near hsecs
    have hlarge := hpow 66 (by decide)
    generalize (2 : ℚ) ^ (1023 : ℤ) = bound at hlarge ⊢
    have hsecs_lt : (d.secs : ℚ) < 2 ^ 64 := by exact_mod_cast hd
    rw [hsum]
    norm_num at hwhole_near hfrac_near hsubsec hlarge
    linarith
  obtain ⟨y, hy⟩ := exists_ofFraction?_eq_some hden hlt
  have htoSeconds : d.toSeconds = y := by
    rw [toSeconds, ofNat?, hwhole, hfrac, Option.getD_some, Option.getD_some, hadd, hy, Option.getD_some]
  exact ⟨whole, frac, num, den, hwhole, hfrac, hden, hsum, htoSeconds ▸ hy⟩

/-- The error of the fraction. -/
theorem abs_frac_sub_le {frac : Binary64} (h : ofFraction? d.subsecNanos perSecond = some frac) :
    |frac.toRat - (d.subsecNanos : ℚ) / perSecond| ≤ 2 ^ (-54 : ℤ) := by
  have hperSecond : 0 < perSecond := by decide
  have hlt : (d.subsecNanos : ℚ) / perSecond < 2 ^ (0 : ℤ) := by
    rw [zpow_zero, div_lt_one (by exact_mod_cast hperSecond)]
    exact_mod_cast d.subsecNanos_lt
  have hnear := abs_toRat_sub_le_of_lt hperSecond h (by decide) hlt
  rwa [zero_sub] at hnear

/-- Whole seconds that fit into a mantissa stay as they are. -/
theorem toRat_whole {whole : Binary64} (h : ofFraction? d.secs 1 = some whole) (hd : d.secs < 2 ^ 53) :
    whole.toRat = d.secs := by
  apply toRat_of_natCast Nat.one_pos h hd
  rw [Nat.cast_one, div_one]

/-- With whole seconds that fit into a mantissa, the sum is as close as the fraction. -/
theorem exists_toSeconds_of_lt (hd : d.secs < 2 ^ 53) : ∃ num den : ℕ, 0 < den ∧
    |(num : ℚ) / den - d.toRat| ≤ 2 ^ (-54 : ℤ) ∧ ofFraction? num den = some d.toSeconds := by
  obtain ⟨whole, frac, num, den, hwhole, hfrac, hden, hsum, hy⟩ :=
    exists_toSeconds (hd.trans (by norm_num))
  refine ⟨num, den, hden, ?_, hy⟩
  rw [hsum, toRat_whole hwhole hd, toRat_eq, add_sub_add_left_eq_sub]
  exact abs_frac_sub_le hfrac

/-- Whole seconds that are a binary number. -/
theorem toSeconds_of_toRat_eq (hx : x.Canonical) (hd : d.secs < 2 ^ 64) (hsecs : 0 < d.secs)
    (hsubsec : d.subsecNanos = 0) (h : x.toRat = d.secs) : d.toSeconds = x := by
  obtain ⟨whole, frac, num, den, hwhole, hfrac, hden, hsum, hy⟩ := exists_toSeconds hd
  have hwhole_eq : whole = x := by
    rw [ofFraction?_of_toRat hx hsecs Nat.one_pos] at hwhole
    · exact (Option.some.inj hwhole).symm
    · rw [h, Nat.cast_one, div_one]
  rw [hsubsec] at hfrac
  obtain rfl := Option.some.inj hfrac
  rw [toRat_zero, add_zero, hwhole_eq] at hsum
  have hnum : 0 < num := by
    apply Nat.pos_of_ne_zero
    rintro rfl
    rw [Nat.cast_zero, zero_div, h] at hsum
    have hzero : d.secs = 0 := by exact_mod_cast hsum.symm
    omega
  rw [ofFraction?_of_toRat hx hnum hden hsum] at hy
  exact (Option.some.inj hy).symm

/-! ## There and back -/

/-- Seconds within half a nanosecond of a span give it. -/
theorem ofSeconds?_of_abs_sub_lt (hd : d.secs < secsLimit) (h : |x.toRat - d.toRat| * perSecond < 1 / 2) :
    ofSeconds? x = some d := by
  apply ofSeconds?_of_near
  · exact (Nat.div_lt_iff_lt_mul (by decide)).1 hd
  · rwa [abs_sub_mul_of_pos perSecond_pos, toRat_mul_perSecond] at h

/-- Up to `2 ^ 23` seconds the nanoseconds are apart. -/
theorem ofSeconds?_toSeconds_of_le (h : d.nanos ≤ 2 ^ 23 * perSecond) : ofSeconds? d.toSeconds = some d := by
  have hsecs : d.secs ≤ 2 ^ 23 := Nat.div_le_of_le_mul (h.trans_eq (Nat.mul_comm _ _))
  have hsecs_lt : d.secs < 2 ^ 64 := hsecs.trans_lt (by norm_num)
  apply ofSeconds?_of_abs_sub_lt hsecs_lt
  have hsplit := d.toRat_eq
  rcases Nat.lt_or_eq_of_le hsecs with hlt | heq
  · obtain ⟨num, den, hden, hsum, hy⟩ := exists_toSeconds_of_lt (hsecs.trans_lt (by norm_num))
    have hsum_lt : (num : ℚ) / den < 2 ^ (23 : ℤ) := by
      have hsubsec : (d.subsecNanos : ℚ) + 1 ≤ perSecond := by exact_mod_cast d.subsecNanos_lt
      have hwhole : (d.secs : ℚ) + 1 ≤ 2 ^ 23 := by exact_mod_cast hlt
      have hsum_le := (abs_le.1 hsum).2
      rw [hsplit, cast_perSecond] at hsum_le
      rw [cast_perSecond] at hsubsec
      norm_num at hsum_le hwhole hsubsec ⊢
      linarith
    have hround := abs_toRat_sub_le_of_lt hden hy (by decide) hsum_lt
    have hnear := (abs_sub_le _ _ _).trans (add_le_add hround hsum)
    rw [cast_perSecond]
    norm_num at hnear ⊢
    linarith
  · -- no nanoseconds are left beyond the whole seconds
    have hsubsec : d.subsecNanos = 0 := by
      have hnanos : d.secs * perSecond + d.subsecNanos = d.nanos := Nat.div_add_mod' _ _
      rw [heq] at hnanos
      omega
    have hexact : Binary64.toRat ⟨2 ^ 52, -29⟩ = d.secs := by
      rw [heq, Binary64.toRat]
      norm_num
    rw [toSeconds_of_toRat_eq ⟨by decide, by decide, by decide, by decide⟩ hsecs_lt (by omega) hsubsec hexact,
      hexact, hsplit, hsubsec]
    norm_num

theorem secs_lt_of_ofSeconds? (h : ofSeconds? x = some d) : d.secs < 2 ^ 64 :=
  (Nat.div_lt_iff_lt_mul (by decide)).2 (ofSeconds?_eq_some_iff.1 h).2

/-- A span that came from whole seconds has nothing beyond them. -/
theorem toSeconds_of_whole (hx : x.Canonical) (h : ofSeconds? x = some d) {n : ℕ} (hn : x.toRat = n)
    (hpos : 0 < n) : d.toSeconds = x := by
  have hnanos : d.nanos = n * perSecond := by
    rw [← (ofSeconds?_eq_some_iff.1 h).1]
    apply roundDiv_eq_of_near _ x.toFraction_pos
    rw [seconds_div, hn, Nat.cast_mul, sub_self, abs_zero]
    norm_num
  have hsecs : d.secs = n := by
    rw [secs, hnanos, Nat.mul_div_cancel _ (by decide)]
  have hsubsec : d.subsecNanos = 0 := by
    rw [subsecNanos, hnanos, Nat.mul_mod_left]
  apply toSeconds_of_toRat_eq hx (secs_lt_of_ofSeconds? h) _ hsubsec
  · rw [hn, hsecs]
  · omega

/-- Other seconds are still closer to the span that came from them than their neighbours are. -/
theorem toSeconds_of_fractional (hx : x.Canonical) (h : ofSeconds? x = some d) (hlarge : 2 ^ 23 < x.toRat)
    (hwhole : ¬ ∃ n : ℕ, x.toRat = n) : d.toSeconds = x := by
  obtain ⟨hleast, hneg, hpower⟩ := hx.exponent_of_fractional hlarge hwhole
  have hgap : 1 / 2 ^ 30 ≤ x.lowerGap := by
    have hpow_le : (2 : ℚ) ^ (-29 : ℤ) ≤ 2 ^ x.exponent := zpow_le_zpow_right₀ one_le_two hleast
    rw [lowerGap, if_neg fun h => hpower h.1]
    norm_num at hpow_le ⊢
    linarith
  have hnear := abs_toRat_sub_toRat_le h
  have hsecs : d.secs < 2 ^ 53 := by
    have hm : (x.mantissa : ℚ) < 2 ^ 53 := by exact_mod_cast hx.mantissa_lt
    have hpow_le : (2 : ℚ) ^ x.exponent ≤ 2 ^ (-1 : ℤ) := zpow_le_zpow_right₀ one_le_two (by omega)
    have hx_le : x.toRat ≤ 2 ^ 53 * 2 ^ (-1 : ℤ) := by
      rw [Binary64.toRat]
      gcongr
    have hsecs_le := d.secs_le_toRat
    have hnear_le := (abs_le.1 hnear).2
    have hlt : (d.secs : ℚ) < 2 ^ 53 := by
      norm_num at hx_le
      linarith
    exact_mod_cast hlt
  obtain ⟨num, den, hden, hsum, hy⟩ := exists_toSeconds_of_lt hsecs
  have hsum_near : |(num : ℚ) / den - x.toRat| < 1 / 2 ^ 30 :=
    calc |(num : ℚ) / den - x.toRat| ≤ 2 ^ (-54 : ℤ) + 1 / 2 / 10 ^ 9 :=
          (abs_sub_le _ _ _).trans (add_le_add hsum hnear)
      _ < 1 / 2 ^ 30 := by norm_num
  rw [abs_lt] at hsum_near
  have hgap_le := x.lowerGap_le
  have hlow : x.toRat - x.lowerGap < num / den := by linarith
  have hnum : 0 < num := by
    apply Nat.pos_of_ne_zero
    rintro rfl
    rw [Nat.cast_zero, zero_div] at hsum_near
    linarith
  rw [ofFraction?_of_near hx hnum hden hlow (by linarith)] at hy
  exact (Option.some.inj hy).symm

/-- Beyond some size seconds come back from the span that they gave. -/
theorem toSeconds_of_ofSeconds? (hx : x.Canonical) (h : ofSeconds? x = some d)
    (hlarge : 2 ^ 23 * perSecond < d.nanos) : d.toSeconds = x := by
  have hx_gt : 2 ^ 23 < x.toRat := by
    have hnear_le := (abs_le.1 (abs_nanos_sub_le h)).2
    have hnanos : (2 : ℚ) ^ 23 * perSecond + 1 ≤ d.nanos := by exact_mod_cast hlarge
    rw [cast_perSecond] at hnear_le hnanos
    linarith
  by_cases hwhole : ∃ n : ℕ, x.toRat = n
  · obtain ⟨n, hn⟩ := hwhole
    have hpos : 0 < n := by
      rw [hn] at hx_gt
      exact_mod_cast (by positivity : (0 : ℚ) < 2 ^ 23).trans hx_gt
    exact toSeconds_of_whole hx h hn hpos
  · exact toSeconds_of_fractional hx h hx_gt hwhole

/-- **A span that came from seconds goes back to them.** -/
theorem ofSeconds?_toSeconds_of_ofSeconds? (hx : x.Canonical) (h : ofSeconds? x = some d) :
    ofSeconds? d.toSeconds = some d := by
  rcases Nat.lt_or_ge (2 ^ 23 * perSecond) d.nanos with hlarge | hsmall
  · rw [toSeconds_of_ofSeconds? hx h hlarge, h]
  · exact ofSeconds?_toSeconds_of_le hsmall

/-! ## Any span -/

theorem secs_lt_of_le_longest (hd : d.nanos ≤ longest.nanos) : d.secs < 2 ^ 64 := by
  have hle := d.secs_le_toRat.trans (toRat_le_longest hd)
  rw [toRat_mostSeconds] at hle
  have hlt : (d.secs : ℚ) < 2 ^ 64 := by linarith
  exact_mod_cast hlt

theorem toRat_toSeconds_le (hd : d.nanos ≤ longest.nanos) : d.toSeconds.toRat ≤ mostSeconds.toRat := by
  have hstep : (2 : ℚ) ^ mostSeconds.exponent / 2 = 2 ^ 10 := by norm_num [mostSeconds]
  have hsecs : (d.secs : ℚ) ≤ mostSeconds.toRat := d.secs_le_toRat.trans (toRat_le_longest hd)
  obtain ⟨whole, frac, num, den, hwhole, hfrac, hden, hsum, hy⟩ :=
    exists_toSeconds (secs_lt_of_le_longest hd)
  have hwhole_le : whole.toRat ≤ mostSeconds.toRat := by
    apply toRat_le_of_lt canonical_mostSeconds Nat.one_pos hwhole
    rw [hstep, Nat.cast_one, div_one]
    linarith
  have hfrac_le : frac.toRat ≤ 2 := by
    have hsubsec : (d.subsecNanos : ℚ) / perSecond < 1 := by
      rw [div_lt_one perSecond_pos]
      exact_mod_cast d.subsecNanos_lt
    have hnear := (abs_le.1 (abs_frac_sub_le hfrac)).2
    norm_num at hnear
    linarith
  apply toRat_le_of_lt canonical_mostSeconds hden hy
  rw [hstep, hsum]
  linarith

theorem toSeconds_zero : zero.toSeconds = Binary64.zero := by
  have hadd : Binary64.zero.add? .zero = some .zero := by decide +kernel
  have hwhole : ofNat? zero.secs = some .zero := rfl
  have hfrac : ofFraction? zero.subsecNanos perSecond = some .zero := rfl
  rw [toSeconds, hwhole, hfrac, Option.getD_some, hadd, Option.getD_some]

/-- A span in seconds is a number of the format. -/
theorem canonical_toSeconds (hd : d.nanos ≤ longest.nanos) : d.toSeconds.Canonical := by
  obtain ⟨-, -, num, den, -, -, hden, -, hy⟩ := exists_toSeconds (secs_lt_of_le_longest hd)
  exact canonical_of_ofFraction? hden hy

/-- The error of all three roundings, beyond the span up to which there is none. -/
theorem abs_toRat_toSeconds_sub_le (hd : d.nanos ≤ longest.nanos) (hlarge : 2 ^ 23 ≤ d.toRat) :
    |d.toSeconds.toRat - d.toRat| ≤ d.toRat * (3 / 2 ^ 53) := by
  obtain ⟨whole, frac, num, den, hwhole, hfrac, hden, hsum, hy⟩ :=
    exists_toSeconds (secs_lt_of_le_longest hd)
  have hleast : (2 : ℚ) ^ (minExponent + 52) ≤ 1 := zpow_le_one_of_nonpos₀ one_le_two (by decide)
  have hsplit := d.toRat_eq
  have hsubsec : (0 : ℚ) ≤ (d.subsecNanos : ℚ) / perSecond ∧ (d.subsecNanos : ℚ) / perSecond < 1 := by
    rw [div_lt_one perSecond_pos]
    exact ⟨by positivity, by exact_mod_cast d.subsecNanos_lt⟩
  have hwhole_near : |whole.toRat - d.secs| ≤ d.secs * 2 ^ (-53 : ℤ) := by
    have hnear := abs_toRat_sub_le_mul Nat.one_pos hwhole
    rw [Nat.cast_one, div_one] at hnear
    apply hnear
    linarith
  have hfrac_near := abs_frac_sub_le hfrac
  norm_num [abs_le] at hwhole_near hfrac_near
  have hsum_near : |d.toSeconds.toRat - num / den| ≤ num / den * 2 ^ (-53 : ℤ) := by
    apply abs_toRat_sub_le_mul hden hy
    rw [hsum]
    linarith
  rw [hsum] at hsum_near
  norm_num [abs_le] at hsum_near ⊢
  constructor <;> linarith

/-- **Any span comes back almost unchanged.** -/
theorem toSeconds_near (hd : d.nanos ≤ longest.nanos) :
    ∃ d', ofSeconds? d.toSeconds = some d' ∧ |(d'.nanos : ℤ) - d.nanos| * 2 ^ 51 ≤ d.nanos := by
  obtain ⟨d', hd'⟩ := exists_ofSeconds? (toRat_toSeconds_le hd)
  refine ⟨d', hd', ?_⟩
  rcases Nat.lt_or_ge (2 ^ 23 * perSecond) d.nanos with hlarge | hsmall
  · have hlarge' : 2 ^ 23 ≤ d.toRat := by
      rw [toRat, le_div_iff₀ perSecond_pos]
      exact_mod_cast hlarge.le
    have hseconds := mul_le_mul_of_nonneg_right (abs_toRat_toSeconds_sub_le hd hlarge') perSecond_pos.le
    rw [abs_sub_mul_of_pos perSecond_pos, toRat_mul_perSecond, mul_right_comm, toRat_mul_perSecond] at hseconds
    have hnear := (abs_sub_le _ _ _).trans (add_le_add (abs_nanos_sub_le hd') hseconds)
    have hlarge'' : (2 : ℚ) ^ 23 * perSecond ≤ d.nanos := by exact_mod_cast hlarge.le
    rw [cast_perSecond] at hlarge''
    have hgoal : |(d'.nanos : ℚ) - d.nanos| * 2 ^ 51 ≤ d.nanos := by linarith
    exact_mod_cast hgoal
  · obtain rfl : d' = d := by
      rw [ofSeconds?_toSeconds_of_le hsmall] at hd'
      exact (Option.some.inj hd').symm
    rw [sub_self, abs_zero, zero_mul]
    exact Int.natCast_nonneg _

theorem ne_zero_of_near {d' : Duration} (hd : d ≠ zero) (h : |(d'.nanos : ℤ) - d.nanos| * 2 ^ 51 ≤ d.nanos) :
    d' ≠ zero := by
  rintro rfl
  have hpos : d.nanos ≠ 0 := fun hzero => hd (congrArg Duration.mk hzero)
  rw [zero, Nat.cast_zero, zero_sub, abs_neg, Nat.abs_cast] at h
  omega

end Duration

end SlotQuery
