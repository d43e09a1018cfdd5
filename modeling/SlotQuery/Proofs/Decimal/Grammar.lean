import Mathlib.Data.List.TakeDrop
import Mathlib.Data.List.TakeWhile
import SlotQuery.Decimal.Numeral

/-!
# How numerals are written

A numeral is written with a sign or none, digits with or without a point, and an exponent or none
(`IsText`). These characters are read as that numeral and no others are (`parse?_eq_some_iff`): each part
ends where the next one can start, so reading as far as possible takes the right ones.
-/

namespace SlotQuery

open Text

namespace Numeral

variable {cs rest ds sgn : List Char} {negative : Bool} {e : ℤ} {d : Numeral}

/-- A sign, or none. Only a minus makes a number negative. -/
inductive IsSign : List Char → Bool → Prop
  | none : IsSign [] false
  | plus : IsSign ['+'] false
  | minus : IsSign ['-'] true

/-- A point with the given digits behind it, or neither. -/
inductive IsFraction : List Char → List Char → Prop
  | none : IsFraction [] []
  | point {ds : List Char} (hds : ∀ c ∈ ds, c.isDigit = true) : IsFraction ('.' :: ds) ds

/-- An exponent, or none, which means zero. -/
inductive IsExponent : List Char → ℤ → Prop
  | none : IsExponent [] 0
  | mark {mark : Char} {sgn ds : List Char} {negative : Bool} (hmark : mark = 'e' ∨ mark = 'E')
      (hsgn : IsSign sgn negative) (hne : ds ≠ []) (hds : ∀ c ∈ ds, c.isDigit = true) :
      IsExponent (mark :: (sgn ++ ds)) (if negative then -ofDigits ds else ofDigits ds)

/-- The characters are the text of the numeral. Digits behind the point count as digits of the whole, with
the exponent that much smaller. -/
inductive IsText : List Char → Numeral → Prop
  | mk {sgn whole point frac exponent : List Char} {negative : Bool} {e : ℤ} (hsgn : IsSign sgn negative)
      (hwhole : ∀ c ∈ whole, c.isDigit = true) (hpoint : IsFraction point frac) (hne : whole ++ frac ≠ [])
      (hexponent : IsExponent exponent e) :
      IsText (sgn ++ (whole ++ (point ++ exponent))) ⟨negative, ofDigits (whole ++ frac), e - frac.length⟩

/-! ## Signs -/

/-- What is read as a sign is one. -/
theorem exists_isSign (h : sign cs = (negative, rest)) : ∃ sgn, IsSign sgn negative ∧ cs = sgn ++ rest := by
  unfold sign at h
  split at h
  all_goals obtain ⟨rfl, rfl⟩ := Prod.mk.inj h
  · exact ⟨['-'], .minus, rfl⟩
  · exact ⟨['+'], .plus, rfl⟩
  · exact ⟨[], .none, rfl⟩

/-- A sign is read up to something that is no sign. -/
theorem IsSign.sign_append (h : IsSign sgn negative) (hrest : ∀ c ∈ rest.head?, c ≠ '-' ∧ c ≠ '+') :
    sign (sgn ++ rest) = (negative, rest) := by
  cases h with
  | none =>
    rw [List.nil_append, sign]
    · rintro cs rfl
      exact (hrest '-' rfl).1 rfl
    · rintro cs rfl
      exact (hrest '+' rfl).2 rfl
  | plus => rfl
  | minus => rfl

theorem not_sign_of_isDigit {c : Char} (h : c.isDigit = true) : c ≠ '-' ∧ c ≠ '+' := by
  constructor
  all_goals
    rintro rfl
    cases h

/-! ## Digits -/

/-- Reading digits takes digits only, and nothing is lost. -/
theorem digits_of_span (h : cs.span Char.isDigit = (ds, rest)) :
    cs = ds ++ rest ∧ ∀ c ∈ ds, c.isDigit = true := by
  rw [List.span_eq_takeWhile_dropWhile] at h
  obtain ⟨rfl, rfl⟩ := Prod.mk.inj h
  exact ⟨List.takeWhile_append_dropWhile.symm, fun c hc => List.mem_takeWhile_imp hc⟩

/-- Digits are read up to something that is no digit. -/
theorem span_append (hds : ∀ c ∈ ds, c.isDigit = true) (hrest : ∀ c ∈ rest.head?, c.isDigit = false) :
    (ds ++ rest).span Char.isDigit = (ds, rest) := by
  have hnone : rest.takeWhile Char.isDigit = [] ∧ rest.dropWhile Char.isDigit = rest := by
    cases rest with
    | nil => exact ⟨rfl, rfl⟩
    | cons c cs => simp [hrest c rfl]
  rw [List.span_eq_takeWhile_dropWhile, List.takeWhile_append_of_pos hds, List.dropWhile_append_of_pos hds,
    hnone.1, hnone.2, List.append_nil]

/-! ## Fractions -/

/-- The digits behind a point, if one is there, and what follows. -/
def fraction : List Char → List Char × List Char
  | '.' :: cs => cs.span Char.isDigit
  | cs => ([], cs)

theorem exists_isFraction (h : fraction cs = (ds, rest)) :
    ∃ point, IsFraction point ds ∧ cs = point ++ rest := by
  unfold fraction at h
  split at h
  · next cs =>
    obtain ⟨rfl, hds⟩ := digits_of_span h
    exact ⟨'.' :: ds, .point hds, rfl⟩
  · obtain ⟨rfl, rfl⟩ := Prod.mk.inj h
    exact ⟨[], .none, rfl⟩

/-- A fraction is read up to something that is neither a digit nor a point. -/
theorem IsFraction.fraction_append {point : List Char} (h : IsFraction point ds)
    (hrest : ∀ c ∈ rest.head?, c.isDigit = false ∧ c ≠ '.') : fraction (point ++ rest) = (ds, rest) := by
  cases h with
  | none =>
    rw [List.nil_append, fraction]
    rintro cs rfl
    exact (hrest '.' rfl).2 rfl
  | point hds => exact span_append hds fun c hc => (hrest c hc).1

/-! ## Exponents -/

/-- An exponent is read from its text and from no other. -/
theorem parseExponent?_eq_some_iff : parseExponent? cs = some e ↔ IsExponent cs e := by
  constructor
  · intro h
    cases cs with
    | nil =>
      obtain rfl := Option.some.inj h
      exact .none
    | cons c cs =>
      rw [parseExponent?] at h
      split at h
      · next hmark =>
        cases hsign : sign cs with
        | mk negative ds =>
          obtain ⟨sgn, hsgn, rfl⟩ := exists_isSign hsign
          rw [hsign] at h
          obtain ⟨⟨hne, hds⟩, rfl⟩ : (ds ≠ [] ∧ ∀ c ∈ ds, c.isDigit = true) ∧
              (if negative then -(ofDigits ds : ℤ) else ofDigits ds) = e := by simpa using h
          exact .mark (by simpa using hmark) hsgn hne hds
      · cases h
  · intro h
    cases h with
    | none => rfl
    | @mark mark sgn ds negative hmark hsgn hne hds =>
      have hsign : sign (sgn ++ ds) = (negative, ds) := by
        refine hsgn.sign_append fun c hc => ?_
        exact not_sign_of_isDigit (hds c (List.mem_of_mem_head? hc))
      have hdigits : (ds.isEmpty || !ds.all Char.isDigit) = false := by simpa using ⟨hne, hds⟩
      rw [parseExponent?, if_pos (by simpa using hmark), hsign]
      simp only [hdigits, Bool.false_eq_true, if_false]

/-- An exponent starts with its mark. -/
theorem IsExponent.head (h : IsExponent cs e) : ∀ c ∈ cs.head?, c.isDigit = false ∧ c ≠ '.' := by
  cases h with
  | none => nofun
  | mark hmark =>
    intro c hc
    obtain rfl := Option.some.inj hc
    rcases hmark with rfl | rfl <;> decide

/-- No digit stands in front of a fraction and an exponent. -/
theorem IsFraction.head {point exponent : List Char} (h : IsFraction point ds) (hexponent : IsExponent exponent e) :
    ∀ c ∈ (point ++ exponent).head?, c.isDigit = false := by
  cases h with
  | none => exact fun c hc => (hexponent.head c hc).1
  | point hds =>
    intro c hc
    obtain rfl := Option.some.inj hc
    rfl

/-! ## Numerals -/

/-- The first digit or the point is no sign. -/
theorem IsFraction.head_whole {whole point frac : List Char} (h : IsFraction point frac)
    (hwhole : ∀ c ∈ whole, c.isDigit = true) (hne : whole ++ frac ≠ []) (exponent : List Char) :
    ∀ c ∈ (whole ++ (point ++ exponent)).head?, c ≠ '-' ∧ c ≠ '+' := by
  cases whole with
  | cons c whole =>
    intro c' hc'
    obtain rfl := Option.some.inj hc'
    exact not_sign_of_isDigit (hwhole c List.mem_cons_self)
  | nil =>
    cases h with
    | none => exact absurd rfl hne
    | point hds =>
      intro c hc
      obtain rfl := Option.some.inj hc
      decide

/-- Reading a numeral part by part. -/
theorem parse?_eq_some_iff_of_parts {unsigned whole frac exponent : List Char}
    (hsign : sign cs = (negative, unsigned)) (hwhole : unsigned.span Char.isDigit = (whole, rest))
    (hfrac : fraction rest = (frac, exponent)) :
    parse? cs = some d ↔ whole ++ frac ≠ [] ∧ ∃ e, parseExponent? exponent = some e ∧
      ⟨negative, ofDigits (whole ++ frac), e - frac.length⟩ = d := by
  have hparts : parse? cs =
      if whole.isEmpty && (fraction rest).1.isEmpty then none
      else (parseExponent? (fraction rest).2).map fun e =>
        ⟨negative, ofDigits (whole ++ (fraction rest).1), e - (fraction rest).1.length⟩ := by
    simp only [parse?, hsign, hwhole]
    rfl
  rw [hparts, hfrac, Option.ite_none_left_eq_some, Option.map_eq_some_iff]
  simp [List.append_eq_nil_iff]

/-- **A numeral is read from its text and from no other.** -/
theorem parse?_eq_some_iff : parse? cs = some d ↔ IsText cs d := by
  constructor
  · intro h
    cases hsign : sign cs with
    | mk negative unsigned =>
      cases hspan : unsigned.span Char.isDigit with
      | mk whole rest =>
        cases hfraction : fraction rest with
        | mk frac exponent =>
          obtain ⟨hne, e, hexponent, rfl⟩ := (parse?_eq_some_iff_of_parts hsign hspan hfraction).1 h
          obtain ⟨sgn, hsgn, rfl⟩ := exists_isSign hsign
          obtain ⟨rfl, hwhole⟩ := digits_of_span hspan
          obtain ⟨point, hpoint, rfl⟩ := exists_isFraction hfraction
          exact .mk hsgn hwhole hpoint hne (parseExponent?_eq_some_iff.1 hexponent)
  · rintro ⟨hsgn, hwhole, hpoint, hne, hexponent⟩
    have hfraction := hpoint.fraction_append hexponent.head
    have hspan := span_append hwhole (hpoint.head hexponent)
    refine (parse?_eq_some_iff_of_parts (hsgn.sign_append ?_) hspan hfraction).2
      ⟨hne, _, parseExponent?_eq_some_iff.2 hexponent, rfl⟩
    exact hpoint.head_whole hwhole hne _

theorem IsText.ne_nil (h : IsText cs d) : cs ≠ [] := by
  rintro rfl
  have hread : parse? [] = some d := parse?_eq_some_iff.2 h
  cases hread

end Numeral

end SlotQuery
