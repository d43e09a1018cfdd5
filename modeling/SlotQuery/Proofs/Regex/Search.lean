import Mathlib.Data.Nat.Bitwise
import SlotQuery.Proofs.Regex.Span
import SlotQuery.Regex.Match

/-!
# Searching is exact

`Regex.reach` keeps positions of a text as the bits of a number. What it reaches from them is what the
pattern spans from their places (`computes_reach`). An unbounded repetition loses nothing by being cut
off after as many rounds as the text has characters, since a round that is of use moves on. Main
statement: `foundIn_iff`.
-/

namespace SlotQuery.Regex

variable {text : List Char} {r : Regex} {R S : Place → Place → Prop} {f g : Nat → Nat} {i j n : Nat}

/-- No repetition asks for more turns than it allows. -/
def Ordered : Regex → Prop
  | seq r s | alt r s => Ordered r ∧ Ordered s
  | rep r least most => Ordered r ∧ ∀ k ∈ most, least ≤ k
  | empty | chars _ | anchor _ => True

/-! ## Positions and places -/

/-- The place in front of the `i`-th character. -/
def placeAt (text : List Char) (i : Nat) : Place := ⟨(text.take i).getLast?, text.drop i⟩

/-- Different places of a text are told apart by what lies around them. -/
theorem placeAt_inj (hi : i ≤ text.length) (hj : j ≤ text.length)
    (h : placeAt text i = placeAt text j) : i = j := by
  have hlength := congrArg (fun p => p.rest.length) h
  simp only [placeAt, List.length_drop] at hlength
  omega

theorem placeAt_succ {c : Char} {cs : List Char} (h : text.drop i = c :: cs) :
    placeAt text (i + 1) = ⟨some c, cs⟩ := by
  have hc : text[i]? = some c := by rw [← List.head?_drop, h, List.head?_cons]
  have hcs : text.drop (i + 1) = cs := by rw [← List.tail_drop, h, List.tail_cons]
  rw [placeAt, List.take_add_one, hc, hcs]
  simp

/-- From a position of the text, the relation leads to positions that are not in front of it. -/
def Forward (text : List Char) (R : Place → Place → Prop) : Prop :=
  ∀ i q, i ≤ text.length → R (placeAt text i) q →
    ∃ j, i ≤ j ∧ j ≤ text.length ∧ q = placeAt text j

/-- Going forward any number of times is going forward. -/
theorem Forward.turns (h : Forward text R) (n : Nat) : Forward text (Turns R n) := by
  induction n with
  | zero =>
    intro i q hi hq
    exact ⟨i, Nat.le_refl i, hi, hq⟩
  | succ n ih =>
    intro i q hi hq
    obtain ⟨p, hp, hturns⟩ := hq
    obtain ⟨j, hij, hj, rfl⟩ := h i p hi hp
    obtain ⟨k, hjk, hk, rfl⟩ := ih j q hj hturns
    exact ⟨k, Nat.le_trans hij hjk, hk, rfl⟩

/-- No pattern goes back in the text. -/
theorem forward_spans (text : List Char) (r : Regex) : Forward text r.Spans := by
  induction r with
  | empty =>
    intro i q hi hq
    exact ⟨i, Nat.le_refl i, hi, hq⟩
  | chars s =>
    intro i q hi hq
    obtain ⟨c, -, hrest, hbefore⟩ := hq
    have hlength := congrArg List.length (show text.drop i = c :: q.rest from hrest)
    rw [List.length_drop, List.length_cons] at hlength
    refine ⟨i + 1, Nat.le_succ i, by omega, ?_⟩
    rw [placeAt_succ hrest, ← hbefore]
  | anchor a =>
    intro i q hi hq
    exact ⟨i, Nat.le_refl i, hi, hq.2⟩
  | seq r s ihr ihs =>
    intro i q hi hq
    obtain ⟨p, hp, hpq⟩ := hq
    obtain ⟨j, hij, hj, rfl⟩ := ihr i p hi hp
    obtain ⟨k, hjk, hk, rfl⟩ := ihs j q hj hpq
    exact ⟨k, Nat.le_trans hij hjk, hk, rfl⟩
  | alt r s ihr ihs =>
    intro i q hi hq
    cases hq with
    | inl hq => exact ihr i q hi hq
    | inr hq => exact ihs i q hi hq
  | rep r least most ih =>
    intro i q hi hq
    obtain ⟨n, -, -, hturns⟩ := hq
    exact ih.turns n i q hi hturns

/-! ## Turns -/

/-- Repetitions can be cut in two anywhere. -/
theorem turns_add {m : Nat} {p q : Place} :
    Turns R (m + n) p q ↔ ∃ o, Turns R m p o ∧ Turns R n o q := by
  induction m generalizing p with
  | zero => simp [Turns]
  | succ m ih =>
    rw [Nat.succ_add]
    constructor
    · rintro ⟨o, ho, hturns⟩
      obtain ⟨o', ho', hrest⟩ := ih.1 hturns
      exact ⟨o', ⟨o, ho, ho'⟩, hrest⟩
    · rintro ⟨o', ⟨o, ho, ho'⟩, hrest⟩
      exact ⟨o, ho, ih.2 ⟨o', ho', hrest⟩⟩

/-- Turns that stay where they are can be left out, so no more of them are needed than the text has
characters between the positions. -/
theorem Forward.exists_turns_le (h : Forward text R) (hi : i ≤ text.length) (hj : j ≤ text.length)
    (hturns : Turns R n (placeAt text i) (placeAt text j)) :
    ∃ k, i + k ≤ j ∧ Turns R k (placeAt text i) (placeAt text j) := by
  induction n generalizing i with
  | zero =>
    have hij := placeAt_inj hj hi hturns
    exact ⟨0, by omega, hturns⟩
  | succ n ih =>
    obtain ⟨p, hp, hrest⟩ := hturns
    obtain ⟨i', hle, hi', rfl⟩ := h i p hi hp
    obtain ⟨k, hk, hturns'⟩ := ih hi' hrest
    rcases Nat.lt_or_eq_of_le hle with hlt | rfl
    · exact ⟨k + 1, by omega, _, hp, hturns'⟩
    · exact ⟨k, hk, hturns'⟩

/-! ## Sets of positions as numbers -/

/-- All positions of the set lie in the text. -/
def Within (text : List Char) (m : Nat) : Prop := ∀ i, m.testBit i = true → i ≤ text.length

/-- The relation leads from the place of one position to that of another. -/
def Links (text : List Char) (R : Place → Place → Prop) (i j : Nat) : Prop :=
  j ≤ text.length ∧ R (placeAt text i) (placeAt text j)

/-- The function takes each set of positions to those that the relation links to one of them. -/
def Computes (text : List Char) (f : Nat → Nat) (R : Place → Place → Prop) : Prop :=
  ∀ m, Within text m → ∀ j, (f m).testBit j = true ↔ ∃ i, m.testBit i = true ∧ Links text R i j

theorem Computes.within (h : Computes text f R) {m : Nat} (hm : Within text m) :
    Within text (f m) := by
  intro j hj
  obtain ⟨i, -, hle, -⟩ := (h m hm j).1 hj
  exact hle

theorem Computes.congr (h : Computes text f R)
    (hRS : ∀ i j, i ≤ text.length → j ≤ text.length →
      (R (placeAt text i) (placeAt text j) ↔ S (placeAt text i) (placeAt text j))) :
    Computes text f S := by
  intro m hm j
  rw [h m hm j]
  constructor
  · rintro ⟨i, hi, hj, hR⟩
    exact ⟨i, hi, hj, (hRS i j (hm i hi) hj).1 hR⟩
  · rintro ⟨i, hi, hj, hS⟩
    exact ⟨i, hi, hj, (hRS i j (hm i hi) hj).2 hS⟩

theorem computes_id (text : List Char) : Computes text id fun p q => q = p := by
  intro m hm j
  constructor
  · intro hj
    exact ⟨j, hj, hm j hj, rfl⟩
  · rintro ⟨i, hi, hj, heq⟩
    obtain rfl := placeAt_inj hj (hm i hi) heq
    exact hi

/-- One step after the other, set by set. -/
theorem Computes.comp (hf : Computes text f R) (hg : Computes text g S) (hR : Forward text R) :
    Computes text (fun m => g (f m)) fun p q => ∃ o, R p o ∧ S o q := by
  intro m hm j
  rw [hg (f m) (hf.within hm) j]
  constructor
  · rintro ⟨k, hk, hj, hS⟩
    obtain ⟨i, hi, -, hik⟩ := (hf m hm k).1 hk
    exact ⟨i, hi, hj, _, hik, hS⟩
  · rintro ⟨i, hi, hj, o, ho, hS⟩
    obtain ⟨k, -, hk, rfl⟩ := hR i o (hm i hi) ho
    exact ⟨k, (hf m hm k).2 ⟨i, hi, hk, ho⟩, hj, hS⟩

/-- Two sets of places at once. -/
theorem Computes.union (hf : Computes text f R) (hg : Computes text g S) :
    Computes text (fun m => f m ||| g m) fun p q => R p q ∨ S p q := by
  intro m hm j
  rw [Nat.testBit_or, Bool.or_eq_true, hf m hm j, hg m hm j]
  constructor
  · rintro (⟨i, hi, hj, hR⟩ | ⟨i, hi, hj, hS⟩)
    · exact ⟨i, hi, hj, .inl hR⟩
    · exact ⟨i, hi, hj, .inr hS⟩
  · rintro ⟨i, hi, hj, hR | hS⟩
    · exact .inl ⟨i, hi, hj, hR⟩
    · exact .inr ⟨i, hi, hj, hS⟩

/-! ## The single steps -/

theorem testBit_charBits {s : CharSet} :
    (charBits s text).testBit i = true ↔ ∃ c, text[i]? = some c ∧ s.contains c = true := by
  induction text generalizing i with
  | nil => simp [charBits]
  | cons c cs ih =>
    rw [charBits, ← Nat.bit_val]
    cases i with
    | zero => simp
    | succ i => rw [Nat.testBit_bit_succ, ih, List.getElem?_cons_succ]

theorem testBit_anchorBits {a : Anchor} {before : Option Char} :
    (anchorBits a before text).testBit i = true ↔
      i ≤ text.length ∧ a.holds ((text.take i).getLast?.or before) text[i]? = true := by
  induction text generalizing before i with
  | nil =>
    rw [anchorBits]
    cases i with
    | zero => cases h : a.holds before none <;> simp [h]
    | succ i => cases a.holds before none <;> simp [Nat.testBit_succ]
  | cons c cs ih =>
    rw [anchorBits, ← Nat.bit_val]
    cases i with
    | zero => simp
    | succ i =>
      rw [Nat.testBit_bit_succ, ih, List.getElem?_cons_succ, List.take_succ_cons, List.length_cons,
        Nat.add_le_add_iff_right, List.getLast?_cons]
      cases (cs.take i).getLast? <;> simp

/-- A character set moves on from the places where it holds. -/
theorem computes_chars (text : List Char) (s : CharSet) :
    Computes text (fun m => (m &&& charBits s text) <<< 1) (chars s).Spans := by
  intro m hm j
  simp only [Nat.testBit_shiftLeft, Nat.testBit_and, Bool.and_eq_true, decide_eq_true_eq,
    testBit_charBits]
  constructor
  · rintro ⟨hj, hm', c, hc, hs⟩
    obtain ⟨i, rfl⟩ := Nat.exists_eq_add_of_le' hj
    rw [Nat.add_sub_cancel] at hc hm'
    obtain ⟨hlt, rfl⟩ := List.getElem?_eq_some_iff.1 hc
    have hdrop := List.drop_eq_getElem_cons hlt
    refine ⟨i, hm', hlt, text[i], hs, ?_⟩
    rw [placeAt_succ hdrop]
    exact ⟨hdrop, rfl⟩
  · rintro ⟨i, hi, hj, c, hs, hrest, hbefore⟩
    have hdrop : text.drop i = c :: (placeAt text j).rest := hrest
    have hc : text[i]? = some c := by rw [← List.head?_drop, hdrop, List.head?_cons]
    have hlt := (List.getElem?_eq_some_iff.1 hc).1
    have hplace : placeAt text j = placeAt text (i + 1) := by rw [placeAt_succ hdrop, ← hbefore]
    obtain rfl := placeAt_inj hj hlt hplace
    exact ⟨Nat.le_add_left 1 i, hi, c, hc, hs⟩

/-- An anchor keeps the places where it holds. -/
theorem computes_anchor (text : List Char) (a : Anchor) :
    Computes text (fun m => m &&& anchorBits a none text) (anchor a).Spans := by
  intro m hm j
  rw [Nat.testBit_and, Bool.and_eq_true, testBit_anchorBits, Option.or_none]
  have hholds : a.holds (placeAt text j).before (placeAt text j).rest.head? =
      a.holds (text.take j).getLast? text[j]? := by rw [placeAt, List.head?_drop]
  constructor
  · rintro ⟨hj, hle, ha⟩
    exact ⟨j, hj, hle, hholds.trans ha, rfl⟩
  · rintro ⟨i, hi, hj, ha, heq⟩
    obtain rfl := placeAt_inj hj (hm i hi) heq
    exact ⟨hi, hj, hholds.symm.trans ha⟩

/-! ## Repetition -/

theorem computes_iterate (h : Computes text f R) (hR : Forward text R) (n : Nat) :
    Computes text (iterate f n) (Turns R n) := by
  induction n with
  | zero => exact computes_id text
  | succ n ih => exact h.comp ih hR

/-- A set that another round does not enlarge is closed under any number of turns. -/
theorem Computes.closed (h : Computes text f R) (hR : Forward text R) {m : Nat} (hm : Within text m)
    (hclosed : m ||| f m = m) (hi : m.testBit i = true) (hj : j ≤ text.length)
    (hturns : Turns R n (placeAt text i) (placeAt text j)) : m.testBit j = true := by
  induction n generalizing i with
  | zero =>
    obtain rfl := placeAt_inj hj (hm i hi) hturns
    exact hi
  | succ n ih =>
    obtain ⟨p, hp, hrest⟩ := hturns
    obtain ⟨k, -, hk, rfl⟩ := hR i p (hm i hi) hp
    have hfk : (f m).testBit k = true := (h m hm k).2 ⟨i, hi, hk, hp⟩
    refine ih ?_ hrest
    rw [← hclosed, Nat.testBit_or, hfk, Bool.or_true]

/-- Repetitions up to a bound, each from wherever the one before got to. -/
theorem computes_spread (h : Computes text f R) (hR : Forward text R) (k : Nat) :
    Computes text (spread f k) fun p q => ∃ n ≤ k, Turns R n p q := by
  induction k with
  | zero =>
    refine (computes_id text).congr fun i j _ _ => ?_
    simp [Turns]
  | succ k ih =>
    intro m hm j
    rw [spread]
    split
    · next hclosed =>
      constructor
      · intro hj
        exact ⟨j, hj, hm j hj, 0, Nat.zero_le _, rfl⟩
      · rintro ⟨i, hi, hj, n, -, hturns⟩
        exact h.closed hR hm hclosed hi hj hturns
    · -- one round, then at most `k` more
      have hnext : Computes text (fun m => m ||| f m) fun p q => q = p ∨ R p q :=
        (computes_id text).union h
      have hforward : Forward text fun p q => q = p ∨ R p q := by
        rintro i q hi (rfl | hq)
        · exact ⟨i, Nat.le_refl i, hi, rfl⟩
        · exact hR i q hi hq
      refine (hnext.comp ih hforward).congr (fun i j _ _ => ?_) m hm j
      constructor
      · rintro ⟨o, rfl | ho, n, hn, hturns⟩
        · exact ⟨n, Nat.le_succ_of_le hn, hturns⟩
        · exact ⟨n + 1, Nat.succ_le_succ hn, o, ho, hturns⟩
      · rintro ⟨n, hn, hturns⟩
        cases n with
        | zero => exact ⟨_, .inl rfl, 0, Nat.zero_le k, hturns⟩
        | succ n =>
          obtain ⟨o, ho, hrest⟩ := hturns
          exact ⟨o, .inr ho, n, Nat.le_of_succ_le_succ hn, hrest⟩

/-- At least so many turns and a bounded number more are the turns of a repetition. -/
theorem spans_rep_iff {least : Nat} {most : Option Nat} (hmost : ∀ k ∈ most, least ≤ k)
    (hi : i ≤ text.length) (hj : j ≤ text.length) :
    (rep r least most).Spans (placeAt text i) (placeAt text j) ↔
      ∃ o, Turns r.Spans least (placeAt text i) o ∧
        ∃ n ≤ most.elim text.length (· - least), Turns r.Spans n o (placeAt text j) := by
  constructor
  · rintro ⟨n, hleast, hn, hturns⟩
    obtain ⟨k, rfl⟩ := Nat.exists_eq_add_of_le hleast
    obtain ⟨o, ho, hrest⟩ := turns_add.1 hturns
    cases most with
    | some most =>
      have hle := hn most rfl
      exact ⟨o, ho, k, show k ≤ most - least by omega, hrest⟩
    | none =>
      obtain ⟨i', -, hi', rfl⟩ := (forward_spans text r).turns least i o hi ho
      obtain ⟨k', hk', hturns'⟩ := (forward_spans text r).exists_turns_le hi' hj hrest
      exact ⟨_, ho, k', show k' ≤ text.length by omega, hturns'⟩
  · rintro ⟨o, ho, n, hn, hrest⟩
    refine ⟨least + n, Nat.le_add_right least n, fun most hmem => ?_, turns_add.2 ⟨o, ho, hrest⟩⟩
    obtain rfl := Option.mem_def.1 hmem
    have hle := hmost most rfl
    have hn' : n ≤ most - least := hn
    omega

/-! ## The whole pattern -/

/-- The search by sets of places finds where the pattern can end. -/
theorem computes_reach (text : List Char) (h : r.Ordered) :
    Computes text (reach text r) r.Spans := by
  induction r with
  | empty => exact computes_id text
  | chars s => exact computes_chars text s
  | anchor a => exact computes_anchor text a
  | seq r s ihr ihs => exact (ihr h.1).comp (ihs h.2) (forward_spans text r)
  | alt r s ihr ihs => exact (ihr h.1).union (ihs h.2)
  | rep r least most ih =>
    have hr := ih h.1
    have hforward := forward_spans text r
    have hrounds := (computes_iterate hr hforward least).comp
      (computes_spread hr hforward (most.elim text.length (· - least))) (hforward.turns least)
    have hreach : reach text (rep r least most) = fun m =>
        spread (reach text r) (most.elim text.length (· - least))
          (iterate (reach text r) least m) := by
      funext m
      cases most <;> rfl
    rw [hreach]
    exact hrounds.congr fun i j hi hj => (spans_rep_iff h.2 hi hj).symm

theorem testBit_everywhere : (everywhere text).testBit i = true ↔ i ≤ text.length := by
  rw [everywhere, Nat.one_shiftLeft, Nat.testBit_two_pow_sub_one, decide_eq_true_eq]
  omega

/-- **Searching is exact.** The search finds a pattern in a text if and only if a match of the pattern
starts somewhere in the text. -/
theorem foundIn_iff (h : r.Ordered) :
    r.foundIn text = true ↔ ∃ pre post, text = pre ++ post ∧ r.StartsAt pre post := by
  have hwithin : Within text (everywhere text) := fun i hi => testBit_everywhere.1 hi
  have hreach := computes_reach text h (everywhere text) hwithin
  rw [foundIn, bne_iff_ne]
  constructor
  · intro hne
    obtain ⟨j, hj⟩ := Nat.exists_testBit_of_ne_zero hne
    obtain ⟨i, -, -, hspans⟩ := (hreach j).1 hj
    exact ⟨text.take i, text.drop i, (List.take_append_drop i text).symm, _, hspans⟩
  · rintro ⟨pre, post, rfl, q, hspans⟩ hzero
    have hplace : placeAt (pre ++ post) pre.length = ⟨pre.getLast?, post⟩ := by
      rw [placeAt, List.take_left, List.drop_left]
    rw [← hplace] at hspans
    have hle : pre.length ≤ (pre ++ post).length := by simp
    obtain ⟨j, -, hj, rfl⟩ := forward_spans _ r pre.length q hle hspans
    have hbit := (hreach j).2 ⟨pre.length, testBit_everywhere.2 hle, hj, hspans⟩
    rw [hzero, Nat.zero_testBit] at hbit
    cases hbit

end SlotQuery.Regex
