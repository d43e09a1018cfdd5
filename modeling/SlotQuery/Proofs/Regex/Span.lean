import Mathlib.Computability.Language
import SlotQuery.Regex.Basic

/-!
# What a pattern reads

`Regex.Spans` is the meaning of a pattern: the places of a text between which it matches. A pattern
without anchors reads the words of a language wherever it stands (`Regex.Reads`), and the operations
on patterns are those on languages.
-/

open scoped Computability

namespace SlotQuery

theorem CharSet.contains_only (c d : Char) : (only c).contains d = (d == c) := by
  rw [Bool.eq_iff_iff, beq_iff_eq]
  constructor
  · intro h
    obtain ⟨hcd, hdc⟩ := Bool.and_eq_true_iff.1 h
    exact Char.le_antisymm (of_decide_eq_true hdc) (of_decide_eq_true hcd)
  · rintro rfl
    simp [only, contains]

namespace Regex

/-- A place in a text: the character in front of it, if there is one, and those behind it. -/
structure Place where
  before : Option Char
  rest : List Char

/-- The place behind the next `w.length` characters, which are those of `w`. -/
def Place.skip (p : Place) (w : List Char) : Place :=
  ⟨w.getLast?.or p.before, p.rest.drop w.length⟩

/-- The relation holds `n` times in a row. -/
def Turns (R : Place → Place → Prop) : Nat → Place → Place → Prop
  | 0, p, q => q = p
  | n + 1, p, q => ∃ m, R p m ∧ Turns R n m q

/-- The pattern matches the text between two places. -/
def Spans : Regex → Place → Place → Prop
  | empty, p, q => q = p
  | chars s, p, q => ∃ c, s.contains c = true ∧ p.rest = c :: q.rest ∧ q.before = some c
  | anchor a, p, q => a.holds p.before p.rest.head? = true ∧ q = p
  | seq r s, p, q => ∃ m, Spans r p m ∧ Spans s m q
  | alt r s, p, q => Spans r p q ∨ Spans s p q
  | rep r least most, p, q =>
    ∃ n, least ≤ n ∧ (∀ k ∈ most, n ≤ k) ∧ Turns (Spans r) n p q

/-- A match of the pattern starts in the text `pre ++ post` behind `pre`. -/
def StartsAt (r : Regex) (pre post : List Char) : Prop := ∃ q, r.Spans ⟨pre.getLast?, post⟩ q

/-- The words of one character that satisfies the test. -/
def letters (p : Char → Bool) : Language Char := {w | ∃ c, p c = true ∧ w = [c]}

/-- The listed words. -/
def words (ws : List (List Char)) : Language Char := {w | w ∈ ws}

/-- Wherever it stands, the pattern reads the words of the language. -/
def Reads (r : Regex) (L : Language Char) : Prop :=
  ∀ p q, r.Spans p q ↔ ∃ w ∈ L, w <+: p.rest ∧ q = p.skip w

/-! ## Places -/

@[simp] theorem Place.skip_nil (p : Place) : p.skip [] = p := by
  simp [Place.skip]

@[simp] theorem Place.skip_rest (p : Place) (w : List Char) :
    (p.skip w).rest = p.rest.drop w.length := rfl

/-- Skipping in two steps is skipping at once. -/
theorem Place.skip_skip (p : Place) (v w : List Char) : (p.skip v).skip w = p.skip (v ++ w) := by
  simp [Place.skip, List.getLast?_append, Option.or_assoc]

/-- Two parts are at the front if the second one is behind the first. -/
theorem append_prefix_iff {v w cs : List Char} :
    v ++ w <+: cs ↔ v <+: cs ∧ w <+: cs.drop v.length := by
  constructor
  · rintro ⟨u, rfl⟩
    exact ⟨⟨w ++ u, by simp⟩, ⟨u, by simp⟩⟩
  · rintro ⟨⟨u, rfl⟩, hw⟩
    rw [List.drop_left] at hw
    exact (List.prefix_append_right_inj v).2 hw

/-! ## Words of one character -/

theorem letters_beq (c : Char) : letters (· == c) = {[c]} := by
  ext w
  constructor
  · rintro ⟨d, hd, rfl⟩
    rw [eq_of_beq hd]
    rfl
  · rintro rfl
    exact ⟨c, beq_self_eq_true c, rfl⟩

/-- A run of letters of one kind, of any length. -/
theorem mem_kstar_letters {p : Char → Bool} {w : List Char} :
    w ∈ (letters p)∗ ↔ ∀ c ∈ w, p c = true := by
  constructor
  · rintro ⟨ws, rfl, hws⟩ c hc
    obtain ⟨v, hv, hcv⟩ := List.mem_flatten.1 hc
    obtain ⟨d, hd, rfl⟩ := hws v hv
    rwa [List.mem_singleton.1 hcv]
  · intro h
    refine ⟨w.map fun c => [c], (List.flatMap_singleton' w).symm, fun v hv => ?_⟩
    obtain ⟨c, hc, rfl⟩ := List.mem_map.1 hv
    exact ⟨c, h c hc, rfl⟩

/-! ## Patterns and languages -/

variable {r s : Regex} {L M : Language Char}

theorem reads_empty : Reads empty 1 := by
  intro p q
  simp [Spans]

theorem reads_chars (s : CharSet) : Reads (chars s) (letters s.contains) := by
  intro p q
  constructor
  · rintro ⟨c, hc, hrest, hbefore⟩
    refine ⟨[c], ⟨c, hc, rfl⟩, by simp [hrest], ?_⟩
    obtain ⟨before, rest⟩ := q
    simp_all [Place.skip]
  · rintro ⟨_, ⟨c, hc, rfl⟩, ⟨u, hu⟩, rfl⟩
    exact ⟨c, hc, by simp [← hu], rfl⟩

/-- A pattern for one character reads just that. -/
theorem reads_only (c : Char) : Reads (chars (.only c)) {[c]} := by
  have h := reads_chars (.only c)
  rwa [funext (CharSet.contains_only c), letters_beq] at h

/-- One pattern behind the other reads the words of both in a row. -/
theorem Reads.seq (hr : Reads r L) (hs : Reads s M) : Reads (.seq r s) (L * M) := by
  intro p q
  simp only [Spans, hr p, hs _ q]
  constructor
  · rintro ⟨_, ⟨v, hv, hvp, rfl⟩, w, hw, hwp, rfl⟩
    refine ⟨v ++ w, Language.append_mem_mul hv hw, ?_, p.skip_skip v w⟩
    exact append_prefix_iff.2 ⟨hvp, hwp⟩
  · rintro ⟨_, hvw, hpre, rfl⟩
    obtain ⟨v, hv, w, hw, rfl⟩ := Language.mem_mul.1 hvw
    obtain ⟨hvp, hwp⟩ := append_prefix_iff.1 hpre
    exact ⟨p.skip v, ⟨v, hv, hvp, rfl⟩, w, hw, hwp, (p.skip_skip v w).symm⟩

/-- A choice of patterns reads the words of either. -/
theorem Reads.alt (hr : Reads r L) (hs : Reads s M) : Reads (.alt r s) (L + M) := by
  intro p q
  simp only [Spans, hr p q, hs p q, Language.mem_add, or_and_right, exists_or]

/-- Reading `n` words of the language one after the other. -/
theorem Reads.turns (hr : Reads r L) (n : Nat) (p q : Place) :
    Turns r.Spans n p q ↔
      ∃ ws : List (List Char), ws.length = n ∧ (∀ w ∈ ws, w ∈ L) ∧ ws.flatten <+: p.rest ∧
        q = p.skip ws.flatten := by
  induction n generalizing p with
  | zero => simp +contextual [Turns]
  | succ n ih =>
    constructor
    · rintro ⟨m, hpm, hmq⟩
      obtain ⟨w, hw, hwp, rfl⟩ := (hr p m).1 hpm
      obtain ⟨ws, rfl, hws, hpre, rfl⟩ := (ih (p.skip w)).1 hmq
      refine ⟨w :: ws, rfl, by simpa [hw] using hws, ?_, p.skip_skip w ws.flatten⟩
      exact append_prefix_iff.2 ⟨hwp, hpre⟩
    · rintro ⟨ws, hlen, hws, hpre, rfl⟩
      obtain ⟨w, ws, rfl⟩ := List.exists_cons_of_length_eq_add_one hlen
      obtain ⟨hwp, hwsp⟩ := append_prefix_iff.1 hpre
      refine ⟨p.skip w, (hr p _).2 ⟨w, hws w List.mem_cons_self, hwp, rfl⟩, ?_⟩
      refine (ih (p.skip w)).2 ⟨ws, Nat.succ.inj hlen, ?_, hwsp, (p.skip_skip w ws.flatten).symm⟩
      exact fun v hv => hws v (List.mem_cons_of_mem w hv)

/-- A repetition without bounds reads words in a row, as many as there are. -/
theorem Reads.star (hr : Reads r L) : Reads (.rep r 0 none) L∗ := by
  intro p q
  constructor
  · rintro ⟨n, -, -, hturns⟩
    obtain ⟨ws, -, hws, hpre, rfl⟩ := (hr.turns n p q).1 hturns
    exact ⟨ws.flatten, Language.join_mem_kstar hws, hpre, rfl⟩
  · rintro ⟨_, ⟨ws, rfl, hws⟩, hpre, rfl⟩
    exact ⟨ws.length, Nat.zero_le _, by simp, (hr.turns _ _ _).2 ⟨ws, rfl, hws, hpre, rfl⟩⟩

theorem Reads.optional (hr : Reads r L) : Reads (.rep r 0 (some 1)) (1 + L) := by
  intro p q
  constructor
  · rintro ⟨n, -, hn, hturns⟩
    obtain ⟨ws, rfl, hws, hpre, rfl⟩ := (hr.turns n p q).1 hturns
    refine ⟨ws.flatten, ?_, hpre, rfl⟩
    rw [Language.mem_add, Language.mem_one]
    match ws, hn 1 rfl with
    | [], _ => exact .inl rfl
    | [w], _ => exact .inr (by simpa using hws w List.mem_cons_self)
  · rintro ⟨w, hw, hpre, rfl⟩
    rcases (Language.mem_add 1 L w).1 hw with rfl | hw
    · exact ⟨0, Nat.le_refl 0, by simp, p.skip_nil⟩
    · refine ⟨1, Nat.zero_le 1, by simp, (hr.turns _ _ _).2 ⟨[w], rfl, ?_, ?_, ?_⟩⟩
      · simpa using hw
      · simpa using hpre
      · simp

theorem singleton_mul_singleton (v w : List Char) :
    ({v} * {w} : Language Char) = {v ++ w} := by
  ext u
  constructor
  · intro h
    obtain ⟨_, rfl, _, rfl, rfl⟩ := Language.mem_mul.1 h
    rfl
  · rintro rfl
    exact Language.append_mem_mul rfl rfl

theorem reads_sequence_nil : Reads (sequence []) 1 := reads_empty

theorem Reads.sequence_singleton (h : Reads r L) : Reads (sequence [r]) L := by
  have h' := h.seq reads_sequence_nil
  rwa [mul_one] at h'

/-- A text in front of a sequence reads as itself. -/
theorem Reads.spelled (w : List Char) {rs : List Regex} (h : Reads (sequence rs) L) :
    Reads (sequence (w.map (fun c => chars (.literal false c)) ++ rs)) ({w} * L) := by
  induction w with
  | nil =>
    rw [show ({[]} : Language Char) = 1 from rfl, one_mul]
    exact h
  | cons c w ih =>
    have hc := (reads_only c).seq ih
    rwa [← mul_assoc, singleton_mul_singleton] at hc

/-- A literal in its own case reads its word and no other. -/
theorem reads_literal (w : List Char) : Reads (literal false w) {w} := by
  have h := Reads.spelled w reads_sequence_nil
  rwa [List.append_nil, mul_one] at h

end Regex

end SlotQuery
