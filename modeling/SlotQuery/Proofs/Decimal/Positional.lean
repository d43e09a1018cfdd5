import Mathlib.Data.List.DropRight
import SlotQuery.Proofs.Decimal.Grammar
import SlotQuery.Proofs.Decimal.ReadingBack

/-!
# Numbers written out

A numeral that is written out without an exponent (`exists_written`) is read as one of the same value, so the
text of a binary number is read as a numeral that gives the number back. Main statement: `parse?_render`.
-/

namespace SlotQuery

open Text

/-! ## Digits -/

/-- Digits in front of others count for more by a power of ten. -/
theorem ofDigits_append (ds es : List Char) :
    ofDigits (ds ++ es) = ofDigits ds * 10 ^ es.length + ofDigits es := by
  have hsplit : ofDigits (ds ++ es) = Nat.ofDigitChars 10 es (ofDigits ds) := Nat.ofDigitChars_append 0
  rw [hsplit, Nat.ofDigitChars_eq_ofDigitChars_zero, Nat.mul_comm]
  rfl

theorem ofDigits_zeros (n : ℕ) : ofDigits (List.replicate n '0') = 0 := Nat.ofDigitChars_replicate_zero

theorem ofDigits_toDigits (n : ℕ) : ofDigits (Nat.toDigits 10 n) = n := Nat.ofDigitChars_ten_toDigits

theorem isDigit_of_mem_toDigits {n : ℕ} : ∀ c ∈ Nat.toDigits 10 n, c.isDigit = true := fun _ hc =>
  Nat.isDigit_of_mem_toDigits (by decide) (by decide) hc

/-- The zeros that fill up a number are digits. -/
theorem isDigit_of_mem_zeros {n : ℕ} : ∀ c ∈ List.replicate n '0', c.isDigit = true := by
  intro c hc
  rw [List.eq_of_mem_replicate hc]
  rfl

namespace Numeral

variable {whole frac : List Char} {d : Numeral} {cs : List Char}

/-- The characters are digits with an optional point between them, and spell the value of the numeral. -/
structure Written (d : Numeral) (whole frac : List Char) : Prop where
  whole_ne_nil : whole ≠ []
  whole_digits : ∀ c ∈ whole, c.isDigit = true
  frac_digits : ∀ c ∈ frac, c.isDigit = true
  value_eq : (ofDigits (whole ++ frac) : ℚ) * 10 ^ (-(frac.length : ℤ)) = d.value

/-- The characters of a numeral that is written out; a point stands only in front of a digit. -/
def pointed (whole frac : List Char) : List Char :=
  if frac.isEmpty then whole else whole ++ '.' :: frac

/-- Nothing else stands in a numeral that is written out: no sign and no exponent. -/
theorem Written.mem_pointed (h : d.Written whole frac) {c : Char} (hc : c ∈ pointed whole frac) :
    c.isDigit = true ∨ c = '.' := by
  rw [pointed] at hc
  split at hc
  · exact .inl (h.whole_digits c hc)
  · rcases List.mem_append.1 hc with hwhole | hrest
    · exact .inl (h.whole_digits c hwhole)
    · rcases List.mem_cons.1 hrest with rfl | hfrac
      · exact .inr rfl
      · exact .inl (h.frac_digits c hfrac)

theorem Written.pointed_ne_nil (h : d.Written whole frac) : pointed whole frac ≠ [] := by
  rw [pointed]
  split
  · exact h.whole_ne_nil
  · exact List.append_ne_nil_of_left_ne_nil h.whole_ne_nil _

/-! ## Writing -/

/-- Digits without the zeros at their end. -/
theorem exists_zeros (ds : List Char) :
    ∃ n, ds = (ds.reverse.dropWhile (· == '0')).reverse ++ List.replicate n '0' := by
  refine ⟨(ds.rtakeWhile (· == '0')).length, ?_⟩
  have hzeros : ds.rtakeWhile (· == '0') = List.replicate (ds.rtakeWhile (· == '0')).length '0' := by
    apply List.eq_replicate_of_mem
    intro c hc
    have hzero := List.mem_rtakeWhile_imp hc
    exact beq_iff_eq.1 hzero
  rw [← hzeros]
  exact List.rdropWhile_append_rtakeWhile.symm

/-- Digits with a point in front of the last ones. -/
theorem written_of_digits {ds : List Char} {places : ℕ} (hlength : places < ds.length)
    (hdigits : ∀ c ∈ ds, c.isDigit = true) (hvalue : ofDigits ds = d.digits)
    (hexponent : d.exponent = -(places : ℤ)) :
    d.Written (ds.take (ds.length - places))
      ((ds.drop (ds.length - places)).reverse.dropWhile (· == '0')).reverse := by
  obtain ⟨zeros, hzeros⟩ := exists_zeros (ds.drop (ds.length - places))
  generalize ((ds.drop (ds.length - places)).reverse.dropWhile (· == '0')).reverse = frac at hzeros ⊢
  have hfrac_length : places = frac.length + zeros := by
    have hdrop := congrArg List.length hzeros
    rw [List.length_drop, List.length_append, List.length_replicate] at hdrop
    omega
  refine ⟨?_, ?_, ?_, ?_⟩
  · rw [← List.length_pos_iff, List.length_take]
    omega
  · intro c hc
    exact hdigits c (List.mem_of_mem_take hc)
  · intro c hc
    apply hdigits c
    apply List.mem_of_mem_drop
    rw [hzeros]
    exact List.mem_append_left _ hc
  · have hsplit : ds = (ds.take (ds.length - places) ++ frac) ++ List.replicate zeros '0' := by
      rw [List.append_assoc, ← hzeros, List.take_append_drop]
    have hdigits_eq := congrArg ofDigits hsplit
    rw [ofDigits_append, ofDigits_zeros, hvalue, List.length_replicate, Nat.add_zero] at hdigits_eq
    have hexponent' : d.exponent = -(frac.length : ℤ) - zeros := by omega
    rw [value, hdigits_eq, hexponent', zpow_sub₀ (by norm_num), zpow_natCast]
    push_cast
    field_simp

/-- Every numeral is written out as digits of the same value. -/
theorem exists_written (d : Numeral) :
    ∃ whole frac, d.Written whole frac ∧ d.positional = String.ofList (pointed whole frac) := by
  simp only [positional]
  split
  · next hexponent =>
    refine ⟨Nat.toDigits 10 d.digits ++ List.replicate d.exponent.toNat '0', [],
      ⟨by simp [Nat.toDigits_ne_nil], ?_, by simp, ?_⟩, rfl⟩
    · exact List.forall_mem_append.2 ⟨isDigit_of_mem_toDigits, isDigit_of_mem_zeros⟩
    · obtain ⟨n, hn⟩ := Int.eq_ofNat_of_zero_le hexponent
      rw [List.append_nil, ofDigits_append, ofDigits_toDigits, ofDigits_zeros, value, hn]
      simp
  · next hexponent =>
    -- zeros stand in front of the digits, so that one is left for the part in front of the point
    refine ⟨_, _, written_of_digits ?_ ?_ ?_ (by omega), rfl⟩
    · rw [List.length_append, List.length_replicate]
      omega
    · exact List.forall_mem_append.2 ⟨isDigit_of_mem_zeros, isDigit_of_mem_toDigits⟩
    · rw [ofDigits_append, ofDigits_zeros, ofDigits_toDigits]
      omega

/-! ## Reading -/

/-- What is written out is read with its digits and with as many places behind the point. -/
theorem Written.parse? (h : d.Written whole frac) :
    Numeral.parse? (pointed whole frac) = some ⟨false, ofDigits (whole ++ frac), -(frac.length : ℤ)⟩ := by
  have hne : whole ++ frac ≠ [] := List.append_ne_nil_of_left_ne_nil h.whole_ne_nil _
  rw [parse?_eq_some_iff, pointed]
  split
  · next hempty =>
    obtain rfl := List.isEmpty_iff.1 hempty
    have htext := IsText.mk .none h.whole_digits .none hne .none
    simpa using htext
  · have htext := IsText.mk .none h.whole_digits (.point h.frac_digits) hne .none
    simpa using htext

end Numeral

/-! ## The text of a binary number -/

namespace Binary64

/-- The text of a binary number is its shortest numeral, written out. -/
theorem exists_written_render (x : Binary64) :
    ∃ whole frac, x.shortest.Written whole frac ∧ x.render.toList = Numeral.pointed whole frac := by
  obtain ⟨whole, frac, hwritten, htext⟩ := x.shortest.exists_written
  refine ⟨whole, frac, hwritten, ?_⟩
  rw [render, htext, String.toList_ofList]

theorem render_ne_nil (x : Binary64) : x.render.toList ≠ [] := by
  obtain ⟨whole, frac, hwritten, htext⟩ := x.exists_written_render
  rw [htext]
  exact hwritten.pointed_ne_nil

theorem mem_render {x : Binary64} {c : Char} (hc : c ∈ x.render.toList) : c.isDigit = true ∨ c = '.' := by
  obtain ⟨whole, frac, hwritten, htext⟩ := x.exists_written_render
  rw [htext] at hc
  exact hwritten.mem_pointed hc

/-- **The text of a number reads back.** -/
theorem parse?_render {x : Binary64} (hx : x.Canonical) :
    ∃ d, Numeral.parse? x.render.toList = some d ∧ d.negative = false ∧ d.toBinary64? = some x := by
  obtain ⟨whole, frac, hwritten, htext⟩ := x.exists_written_render
  refine ⟨⟨false, ofDigits (whole ++ frac), -(frac.length : ℤ)⟩, ?_, rfl, ?_⟩
  · rw [htext]
    exact hwritten.parse?
  · have hvalue : (⟨false, ofDigits (whole ++ frac), -(frac.length : ℤ)⟩ : Numeral).value =
        x.shortest.value := hwritten.value_eq
    rw [Numeral.toBinary64?_congr hvalue]
    exact (toBinary64?_shortest hx).2

end Binary64

end SlotQuery
