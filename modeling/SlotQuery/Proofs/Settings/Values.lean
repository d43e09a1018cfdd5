import Mathlib.Algebra.Order.Floor.Semifield
import SlotQuery.Fleet.IpVersion
import SlotQuery.Proofs.Decimal.Positional
import SlotQuery.Proofs.Decimal.Rounding
import SlotQuery.Proofs.Text.CaseChanges
import SlotQuery.Settings.Value

/-!
# What values of settings mean

Where a text is wanted, numbers and truth values are their own text (`Spells`). Where a count is wanted, numbers
are rounded, truth values are one and zero, and texts are words for these or decimal digits (`Counts`). A mode
is given by its name, in any case (`Names`), a version by its digit (`IsVersionText`), and a timeout by a text
as `Timeout.IsText` has it. None of this reads anything; that the readers find just what it says is one
equivalence for each of them (`asText?_eq_some_iff`, `asCount?_eq_some_iff`, `asMode?_eq_some_iff`,
`IpVersion.parse?_eq_some_iff`, `Timeout.parse_eq_ok_iff`).
-/

namespace SlotQuery

open Text

/-! ## Digits -/

/-- The characters are the number in decimal digits, perhaps with zeros and a plus sign in front. -/
def Digits (cs : List Char) (n : ℕ) : Prop :=
  ∃ plus zeros, (plus = [] ∨ plus = ['+']) ∧ cs = plus ++ (List.replicate zeros '0' ++ Nat.toDigits 10 n)

theorem digit_lt {c : Char} (h : c.isDigit = true) : c.toNat - '0'.toNat < 10 := by
  obtain ⟨-, hhigh⟩ := Char.isDigit_iff_toNat.1 h
  have hbounds : '0'.toNat = 48 ∧ '9'.toNat = 57 := ⟨rfl, rfl⟩
  omega

theorem toDigits_of_isDigit {c : Char} (h : c.isDigit = true) : Nat.toDigits 10 (c.toNat - '0'.toNat) = [c] := by
  obtain ⟨hlow, -⟩ := Char.isDigit_iff_toNat.1 h
  rw [Nat.toDigits_of_lt_base (digit_lt h), List.singleton_inj]
  apply Char.toNat_inj.1
  rw [Nat.toNat_digitChar_of_lt_ten (digit_lt h)]
  exact Nat.add_sub_cancel' hlow

/-- Digits are those of the number they spell, with zeros in front. The last digit is the last one of the
number, so the induction takes the digits from the right. -/
theorem exists_zeros_toDigits {ds : List Char} (hne : ds ≠ []) (hdigits : ∀ c ∈ ds, c.isDigit = true) :
    ∃ zeros, ds = List.replicate zeros '0' ++ Nat.toDigits 10 (ofDigits ds) := by
  induction ds using List.reverseRecOn with
  | nil => exact absurd rfl hne
  | append_singleton ds c ih =>
    obtain ⟨hds, hc⟩ := List.forall_mem_append.1 hdigits
    have hdigit : c.isDigit = true := hc c (List.mem_singleton_self c)
    have hvalue : ofDigits (ds ++ [c]) = 10 * ofDigits ds + (c.toNat - '0'.toNat) := by
      rw [ofDigits, List.foldl_append]
      rfl
    rw [hvalue]
    by_cases hnil : ds = []
    · subst hnil
      refine ⟨0, ?_⟩
      show [c] = Nat.toDigits 10 (0 + (c.toNat - '0'.toNat))
      rw [Nat.zero_add, toDigits_of_isDigit hdigit]
    · obtain ⟨zeros, hzeros⟩ := ih hnil hds
      by_cases hzero : ofDigits ds = 0
      · -- nothing but zeros so far
        rw [hzero] at hzeros ⊢
        refine ⟨zeros + 1, ?_⟩
        rw [Nat.mul_zero, Nat.zero_add, toDigits_of_isDigit hdigit, hzeros, Nat.toDigits_zero,
          List.replicate_succ']
      · refine ⟨zeros, ?_⟩
        rw [← Nat.toDigits_append_toDigits (by decide) (Nat.pos_of_ne_zero hzero) (digit_lt hdigit),
          toDigits_of_isDigit hdigit, ← List.append_assoc, ← hzeros]

/-- Digits with an optional plus sign in front are the number that they spell. -/
theorem digits_iff {cs : List Char} {n : ℕ} :
    Digits cs n ↔ ∃ ds, (cs = ds ∨ cs = '+' :: ds) ∧ ds ≠ [] ∧ (∀ c ∈ ds, c.isDigit = true) ∧ ofDigits ds = n := by
  constructor
  · rintro ⟨plus, zeros, hplus, rfl⟩
    refine ⟨List.replicate zeros '0' ++ Nat.toDigits 10 n, ?_, ?_, ?_, ?_⟩
    · rcases hplus with rfl | rfl
      · exact .inl rfl
      · exact .inr rfl
    · exact List.append_ne_nil_of_right_ne_nil _ Nat.toDigits_ne_nil
    · exact List.forall_mem_append.2 ⟨isDigit_of_mem_zeros, isDigit_of_mem_toDigits⟩
    · rw [ofDigits_append, ofDigits_zeros, ofDigits_toDigits, Nat.zero_mul, Nat.zero_add]
  · rintro ⟨ds, hcs, hne, hdigits, rfl⟩
    obtain ⟨zeros, hzeros⟩ := exists_zeros_toDigits hne hdigits
    rcases hcs with rfl | rfl
    · exact ⟨[], zeros, .inl rfl, hzeros⟩
    · exact ⟨['+'], zeros, .inr rfl, congrArg ('+' :: ·) hzeros⟩

/-- A count is read from its digits, as long as it has 64 bits. -/
theorem count?_eq_some_iff {s : String} {n : ℕ} :
    count? s = some n ↔ Digits s.toList n ∧ n < countLimit := by
  have hread (ds : List Char) :
      (if !ds.isEmpty && ds.all Char.isDigit && ofDigits ds < countLimit then some (ofDigits ds) else none) =
        some n ↔ ds ≠ [] ∧ (∀ c ∈ ds, c.isDigit = true) ∧ ofDigits ds = n ∧ n < countLimit := by
    simp only [Option.ite_none_right_eq_some, Bool.and_eq_true, Bool.not_eq_true', List.isEmpty_eq_false_iff,
      List.all_eq_true, decide_eq_true_eq, Option.some.injEq]
    constructor
    · rintro ⟨⟨⟨hne, hdigits⟩, hlt⟩, rfl⟩
      exact ⟨hne, hdigits, rfl, hlt⟩
    · rintro ⟨hne, hdigits, rfl, hlt⟩
      exact ⟨⟨⟨hne, hdigits⟩, hlt⟩, rfl⟩
  rw [count?, hread, digits_iff]
  split
  · next ds hplus =>
    rw [hplus]
    constructor
    · rintro ⟨hne, hdigits, hvalue, hlt⟩
      exact ⟨⟨ds, .inr rfl, hne, hdigits, hvalue⟩, hlt⟩
    · rintro ⟨⟨ds', hds', hne, hdigits, hvalue⟩, hlt⟩
      rcases hds' with rfl | hds'
      · exact absurd (hdigits '+' List.mem_cons_self) (by decide)
      · obtain rfl := (List.cons.inj hds').2
        exact ⟨hne, hdigits, hvalue, hlt⟩
  · next hplus =>
    constructor
    · rintro ⟨hne, hdigits, hvalue, hlt⟩
      exact ⟨⟨_, .inl rfl, hne, hdigits, hvalue⟩, hlt⟩
    · rintro ⟨⟨ds', hds' | hds', hne, hdigits, hvalue⟩, hlt⟩
      · subst hds'
        exact ⟨hne, hdigits, hvalue, hlt⟩
      · exact absurd hds' (hplus ds')

/-- No other characters stand in a number. -/
theorem Digits.isDigit_or_plus {cs : List Char} {n : ℕ} (h : Digits cs n) :
    ∀ c ∈ cs, c.isDigit = true ∨ c = '+' := by
  obtain ⟨ds, rfl | rfl, -, hdigits, -⟩ := digits_iff.1 h
  · exact fun c hc => .inl (hdigits c hc)
  · intro c hc
    rcases List.mem_cons.1 hc with rfl | hc
    · exact .inr rfl
    · exact .inl (hdigits c hc)

/-- Digits are no letters, so their lower-case form is what they are. -/
theorem Digits.lower_eq {s : String} {n : ℕ} (h : Digits s.toList n) : lower s = s := by
  have hsame : ∀ c ∈ s.toList, c.toNat < 0x80 ∧ c.toLower = c := by
    intro c hc
    rcases h.isDigit_or_plus c hc with hdigit | rfl
    · obtain ⟨-, hhigh⟩ := Char.isDigit_iff_toNat.1 hdigit
      have hcodes : '9'.toNat = 57 ∧ 'A'.toNat = 65 := ⟨rfl, rfl⟩
      rcases toLower_cases c with heq | ⟨hfirst, -, -⟩
      · exact ⟨by omega, heq⟩
      · omega
    · decide
  have hlower : lowerChars s.toList = s.toList := by
    rw [lowerChars, lowerFrom_of_ascii [] _ fun c hc => (hsame c hc).1]
    exact (List.map_congr_left fun c hc => (hsame c hc).2).trans (List.map_id' _)
  rw [lower, hlower, String.ofList_toList]

/-- The words for one and zero are no digits. -/
theorem Digits.lower_notMem {s : String} {n : ℕ} (h : Digits s.toList n) :
    lower s ∉ ["true", "on", "yes"] ∧ lower s ∉ ["false", "off", "no"] := by
  have hwords : ∀ word ∈ ["true", "on", "yes", "false", "off", "no"],
      word.toList.any fun c => !(c.isDigit || c = '+') := by decide
  have hnot : s ∉ ["true", "on", "yes", "false", "off", "no"] := by
    intro hs
    obtain ⟨c, hc, hother⟩ := List.any_eq_true.1 (hwords s hs)
    rcases h.isDigit_or_plus c hc with hdigit | rfl
    · simp [hdigit] at hother
    · simp at hother
  rw [h.lower_eq]
  exact ⟨fun hs => hnot (List.mem_append_left _ hs), fun hs => hnot (List.mem_append_right ["true", "on", "yes"] hs)⟩

namespace Toml

/-! ## Texts -/

/-- The value is written as the text: a text as itself, a date or time in its usual form. -/
inductive Written : Toml → String → Prop
  | text (s : String) : Written (.text s) s
  | moment (s : String) : Written (.moment s) s

/-- The text of the value, where that is not made of others. -/
inductive Spells : Toml → String → Prop
  | written {v : Toml} {s : String} (h : Written v s) : Spells v s
  | int (n : ℤ) : Spells (.int n) (toString n)
  | real (x : Real64) : Spells (.real x) x.render
  | bool (b : Bool) : Spells (.bool b) (toString b)

/-! ## Counts -/

/-- The count that the value means. A count has 64 bits; a number beyond the least and the greatest one means
that one. -/
inductive Counts : Toml → ℕ → Prop
  | int (n : ℕ) : Counts (.int n) n
  /-- The nearest count, a half going up. -/
  | real (x : Binary64) : Counts (.real (.finite false x)) (min (2 ^ 64 - 1) ⌊x.toRat + 1 / 2⌋₊)
  | negative (x : Binary64) : Counts (.real (.finite true x)) 0
  | most : Counts (.real (.infinite false)) (2 ^ 64 - 1)
  | least : Counts (.real (.infinite true)) 0
  | undefined : Counts (.real .undefined) 0
  | bool (b : Bool) : Counts (.bool b) b.toNat
  | one {v : Toml} {s : String} (h : Written v s) (hs : lower s ∈ ["true", "on", "yes"]) : Counts v 1
  | zero {v : Toml} {s : String} (h : Written v s) (hs : lower s ∈ ["false", "off", "no"]) : Counts v 0
  | digits {v : Toml} {s : String} {n : ℕ} (h : Written v s) (hs : Digits s.toList n) (hn : n < 2 ^ 64) :
    Counts v n

/-! ## Modes and versions -/

/-- The text is the name of the mode, in any case. -/
def IsModeName (s : String) : WaitMode → Prop
  | .available => lower s = "available"
  | .unavailable => lower s = "unavailable"

/-- The value is the name of the mode, or a table with the name as its only key. -/
inductive Names : Toml → WaitMode → Prop
  | written {v : Toml} {s : String} {mode : WaitMode} (h : Written v s) (hs : IsModeName s mode) : Names v mode
  | key {s : String} {mode : WaitMode} (hs : IsModeName s mode) (w : Toml) : Names (.table [(s, w)]) mode

/-- The text stands for the version, perhaps with white space around it. -/
def IsVersionText (s : String) : IpVersion → Prop
  | ⟨.v4, false⟩ => trim s = "4"
  | ⟨.v6, false⟩ => trim s = "6"
  | ⟨.v4, true⟩ => trim s = "4?"
  | ⟨.v6, true⟩ => trim s = "6?"

end Toml

namespace Settings

open Toml

variable {v : Toml} {s : String} {n : ℕ} {mode : WaitMode}

/-- A value is read as the text it spells. -/
theorem asText?_eq_some_iff : asText? v = some s ↔ v.Spells s := by
  constructor
  · intro h
    cases v with
    | text t =>
      obtain rfl := Option.some.inj h
      exact .written (.text t)
    | moment t =>
      obtain rfl := Option.some.inj h
      exact .written (.moment t)
    | int n =>
      obtain rfl := Option.some.inj h
      exact .int n
    | real x =>
      obtain rfl := Option.some.inj h
      exact .real x
    | bool b =>
      obtain rfl := Option.some.inj h
      cases b with
      | false => exact .bool false
      | true => exact .bool true
    | list => cases h
    | table => cases h
  · intro h
    cases h with
    | written h => cases h <;> rfl
    | int | real => rfl
    | bool b => cases b <;> rfl

/-- Words come before digits, and no text is both. -/
theorem countOfText?_eq_some_iff : countOfText? s = some n ↔
    (lower s ∈ ["true", "on", "yes"] ∧ n = 1) ∨ (lower s ∈ ["false", "off", "no"] ∧ n = 0) ∨
      Digits s.toList n ∧ n < 2 ^ 64 := by
  have hapart : ∀ word ∈ ["true", "on", "yes"], word ∉ ["false", "off", "no"] := by decide
  simp only [countOfText?, List.contains_iff_mem]
  split
  · next hone =>
    constructor
    · intro h
      exact .inl ⟨hone, (Option.some.inj h).symm⟩
    · rintro (⟨-, rfl⟩ | ⟨hzero, -⟩ | ⟨hdigits, -⟩)
      · rfl
      · exact absurd hzero (hapart _ hone)
      · exact absurd hone hdigits.lower_notMem.1
  · next hone =>
    split
    · next hzero =>
      constructor
      · intro h
        exact .inr (.inl ⟨hzero, (Option.some.inj h).symm⟩)
      · rintro (⟨hone', -⟩ | ⟨-, rfl⟩ | ⟨hdigits, -⟩)
        · exact absurd hone' hone
        · rfl
        · exact absurd hzero hdigits.lower_notMem.2
    · next hzero =>
      rw [count?_eq_some_iff]
      constructor
      · exact fun h => .inr (.inr h)
      · rintro (⟨hone', -⟩ | ⟨hzero', -⟩ | h)
        · exact absurd hone' hone
        · exact absurd hzero' hzero
        · exact h

/-- Rounding is taking the whole part once a half is added. -/
theorem toNat_finite (x : Binary64) (bound : ℕ) :
    (Real64.finite false x).toNat bound = min bound ⌊x.toRat + 1 / 2⌋₊ := by
  have hden : (x.toFraction.2 : ℚ) ≠ 0 := by exact_mod_cast x.toFraction_pos.ne'
  have hhalf : x.toRat + 1 / 2 = ((2 * x.toFraction.1 + x.toFraction.2 : ℕ) : ℚ) / (2 * x.toFraction.2 : ℕ) := by
    rw [← x.toFraction_div]
    push_cast
    field_simp
  rw [hhalf, Nat.floor_div_eq_div]
  rfl

/-- A value is read as the count it means. -/
theorem asCount?_eq_some_iff : asCount? v = some n ↔ v.Counts n := by
  have hlimit : countLimit - 1 = 2 ^ 64 - 1 := by decide
  have hwritten {s : String} (hv : v.Written s) (h : countOfText? s = some n) : v.Counts n := by
    rcases countOfText?_eq_some_iff.1 h with ⟨hs, rfl⟩ | ⟨hs, rfl⟩ | ⟨hs, hn⟩
    · exact .one hv hs
    · exact .zero hv hs
    · exact .digits hv hs hn
  have hread {s : String} (hv : v.Written s) : asCount? v = countOfText? s := by
    cases hv <;> rfl
  constructor
  · intro h
    cases v with
    | text s => exact hwritten (.text s) h
    | moment s => exact hwritten (.moment s) h
    | int m =>
      obtain ⟨hm, hn⟩ := Option.ite_none_right_eq_some.1 h
      obtain ⟨k, rfl⟩ := Int.eq_ofNat_of_zero_le hm
      obtain rfl : k = n := Option.some.inj hn
      exact .int k
    | real x =>
      obtain rfl := Option.some.inj h
      rw [hlimit]
      cases x with
      | finite negative x =>
        cases negative with
        | false =>
          rw [toNat_finite]
          exact .real x
        | true => exact .negative x
      | infinite negative =>
        cases negative with
        | false => exact .most
        | true => exact .least
      | undefined => exact .undefined
    | bool b =>
      obtain rfl := Option.some.inj h
      cases b with
      | false => exact .bool false
      | true => exact .bool true
    | list => cases h
    | table => cases h
  · intro h
    cases h with
    | int n => rw [asCount?, if_pos (Int.natCast_nonneg n), Int.toNat_natCast]
    | real x => rw [asCount?, toNat_finite, hlimit]
    | negative | most | least | undefined => rfl
    | bool b => cases b <;> rfl
    | one hv hs => rw [hread hv, countOfText?_eq_some_iff]; exact .inl ⟨hs, rfl⟩
    | zero hv hs => rw [hread hv, countOfText?_eq_some_iff]; exact .inr (.inl ⟨hs, rfl⟩)
    | digits hv hs hn => rw [hread hv, countOfText?_eq_some_iff]; exact .inr (.inr ⟨hs, hn⟩)

theorem ofName?_eq_some_iff : WaitMode.ofName? (lower s) = some mode ↔ IsModeName s mode := by
  unfold WaitMode.ofName?
  cases mode with
  | available => rw [IsModeName]; split <;> simp_all
  | unavailable => rw [IsModeName]; split <;> simp_all

/-- A value is read as the mode it names. -/
theorem asMode?_eq_some_iff : asMode? v = some mode ↔ v.Names mode := by
  constructor
  · intro h
    unfold asMode? at h
    split at h
    · next s => exact .written (.text s) (ofName?_eq_some_iff.1 h)
    · next s => exact .written (.moment s) (ofName?_eq_some_iff.1 h)
    · next s w => exact .key (ofName?_eq_some_iff.1 h) w
    · cases h
  · rintro ((_ | _) | _)
    all_goals exact ofName?_eq_some_iff.2 ‹_›

end Settings

theorem IpVersion.parse?_eq_some_iff {s : String} {version : IpVersion} :
    IpVersion.parse? s = some version ↔ Toml.IsVersionText s version := by
  have htext (word : String) : trim s = word ↔ (trim s).toList = word.toList := String.toList_inj.symm
  obtain ⟨_ | _, _ | _⟩ := version <;> rw [Toml.IsVersionText, htext] <;> unfold IpVersion.parse? <;> split <;>
    simp_all

/-! ## One meaning -/

namespace Toml

open Settings

variable {v : Toml}

theorem Spells.unique {s s' : String} (h : v.Spells s) (h' : v.Spells s') : s = s' :=
  Option.some.inj ((asText?_eq_some_iff.2 h).symm.trans (asText?_eq_some_iff.2 h'))

theorem Counts.unique {n n' : ℕ} (h : v.Counts n) (h' : v.Counts n') : n = n' :=
  Option.some.inj ((asCount?_eq_some_iff.2 h).symm.trans (asCount?_eq_some_iff.2 h'))

theorem Names.unique {mode mode' : WaitMode} (h : v.Names mode) (h' : v.Names mode') : mode = mode' :=
  Option.some.inj ((asMode?_eq_some_iff.2 h).symm.trans (asMode?_eq_some_iff.2 h'))

theorem IsVersionText.unique {s : String} {version version' : IpVersion} (h : IsVersionText s version)
    (h' : IsVersionText s version') : version = version' :=
  Option.some.inj ((IpVersion.parse?_eq_some_iff.2 h).symm.trans (IpVersion.parse?_eq_some_iff.2 h'))

end Toml

end SlotQuery
