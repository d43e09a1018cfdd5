import Mathlib.Data.Finset.Card
import SlotQuery.Proofs.Query.FirstFit

/-!
# First fit as a matching

First fit pairs slots with candidates that their selectors accept. It does not look for the largest
such matching, but it leaves no pair that could still be added (`accepts_eq_false_of_left_over`). So
every pair of another matching shares its slot or its candidate with a pair of first fit, and a pair of
first fit is met in this way by two others at most. Main statement: `assign_matching`.
-/

namespace SlotQuery

variable {selectors : List Selector} {pool : List Attributes} {i j : Nat} {s : Selector}
  {c : Attributes}

/-- Pairs of a slot and a place in the pool where the selector accepts the candidate, with no slot and
no candidate in two of them. -/
structure IsMatching (selectors : List Selector) (pool : List Attributes)
    (pairs : Finset (Nat × Nat)) : Prop where
  accepts : ∀ p ∈ pairs, ∃ s c, selectors[p.1]? = some s ∧ pool[p.2]? = some c ∧ s.accepts c = true
  slot_inj : Set.InjOn Prod.fst (pairs : Set (Nat × Nat))
  candidate_inj : Set.InjOn Prod.snd (pairs : Set (Nat × Nat))

namespace Assignment

/-- The places of the candidates that hold a slot. -/
def places (a : Assignment) : Finset Nat := (a.held.filterMap id).toFinset

/-- The number of filled slots. -/
def filled (a : Assignment) : Nat := a.held.countP Option.isSome

theorem mem_places {a : Assignment} : i ∈ a.places ↔ ∃ j : Nat, a.held[j]? = some (some i) := by
  rw [places, List.mem_toFinset, List.mem_filterMap]
  constructor
  · rintro ⟨_, hmem, rfl⟩
    exact List.getElem?_of_mem hmem
  · rintro ⟨j, hj⟩
    exact ⟨some i, List.mem_of_getElem? hj, rfl⟩

theorem card_places_le (a : Assignment) : a.places.card ≤ a.filled := by
  refine le_trans (List.toFinset_card_le _) (Nat.le_of_eq ?_)
  rw [filled]
  induction a.held with
  | nil => rfl
  | cons h hs ih =>
    cases h with
    | none => exact ih
    | some i => simpa using ih

end Assignment

/-! ## Nothing can be added -/

/-- A filled slot holds a candidate that its selector accepts. -/
theorem accepts_of_held (h : (assign selectors pool).held[j]? = some (some i)) :
    ∃ s c, selectors[j]? = some s ∧ pool[i]? = some c ∧ s.accepts c = true := by
  obtain ⟨s, hs, c, hc, haccepts, -⟩ := mem_choices_of_held h
  exact ⟨s, c, hs, hc, haccepts⟩

/-- The selector of an empty slot accepts no candidate but those that hold another slot. -/
theorem accepts_eq_false_of_left_over (hs : selectors[j]? = some s) (hc : pool[i]? = some c)
    (hempty : (assign selectors pool).held[j]? = some none)
    (hleft : i ∉ (assign selectors pool).places) : s.accepts c = false := by
  by_contra haccepts
  have hchoices := (held_assign_eq_none_iff hs).1 hempty
  have hchoice : i ∈ s.choices pool ((assign selectors pool).held.take j) := by
    refine ⟨c, hc, by simpa using haccepts, ?_⟩
    -- a slot in front of the empty one would hold the candidate
    intro hearlier
    obtain ⟨k, hk⟩ := List.getElem?_of_mem (List.mem_of_mem_take hearlier)
    exact hleft (Assignment.mem_places.2 ⟨k, hk⟩)
  rw [hchoices] at hchoice
  exact hchoice

/-! ## Counting -/

section Count

variable {pairs : Finset (Nat × Nat)}

/-- Where its candidate holds no slot, the slot of a pair is filled. -/
theorem IsMatching.exists_held (h : IsMatching selectors pool pairs) {p : Nat × Nat} (hp : p ∈ pairs)
    (hleft : p.2 ∉ (assign selectors pool).places) :
    ∃ i, (assign selectors pool).held[p.1]? = some (some i) := by
  obtain ⟨s, c, hs, hc, haccepts⟩ := h.accepts p hp
  have hlt : p.1 < (assign selectors pool).held.length := by
    rw [length_held_assign]
    exact (List.getElem?_eq_some_iff.1 hs).1
  cases hheld : (assign selectors pool).held[p.1]? with
  | none =>
    have hle := List.getElem?_eq_none_iff.1 hheld
    omega
  | some held =>
    cases held with
    | some i => exact ⟨i, rfl⟩
    | none =>
      have hrefused := accepts_eq_false_of_left_over hs hc hheld hleft
      rw [haccepts] at hrefused
      cases hrefused

/-- At most one pair for each filled slot has a candidate that holds a slot. -/
theorem IsMatching.card_taken_le (h : IsMatching selectors pool pairs) :
    (pairs.filter fun p => p.2 ∈ (assign selectors pool).places).card ≤
      (assign selectors pool).filled := by
  refine le_trans (Finset.card_le_card_of_injOn Prod.snd ?_ ?_) (Assignment.card_places_le _)
  · intro p hp
    exact (Finset.mem_filter.1 hp).2
  · apply h.candidate_inj.mono
    exact Finset.coe_subset.2 (Finset.filter_subset _ pairs)

/-- At most one pair for each filled slot has a candidate that holds no slot. -/
theorem IsMatching.card_left_le (h : IsMatching selectors pool pairs) :
    (pairs.filter fun p => p.2 ∉ (assign selectors pool).places).card ≤
      (assign selectors pool).filled := by
  -- such a pair is told by the candidate that holds its slot
  let holder (p : Nat × Nat) : Nat := ((assign selectors pool).held[p.1]?.getD none).getD 0
  have hholder : ∀ p ∈ pairs.filter fun p => p.2 ∉ (assign selectors pool).places,
      (assign selectors pool).held[p.1]? = some (some (holder p)) := by
    intro p hp
    obtain ⟨hmem, hleft⟩ := Finset.mem_filter.1 hp
    obtain ⟨i, hi⟩ := h.exists_held hmem hleft
    simp [holder, hi]
  refine le_trans (Finset.card_le_card_of_injOn holder ?_ ?_) (Assignment.card_places_le _)
  · intro p hp
    exact Assignment.mem_places.2 ⟨p.1, hholder p hp⟩
  · intro p hp q hq hpq
    have hp' := hholder p hp
    have hq' := hholder q hq
    rw [← show holder p = holder q from hpq] at hq'
    exact h.slot_inj (Finset.mem_filter.1 hp).1 (Finset.mem_filter.1 hq).1 (held_assign_inj hp' hq')

theorem IsMatching.card_le (h : IsMatching selectors pool pairs) :
    pairs.card ≤ 2 * (assign selectors pool).filled := by
  have hsplit := Finset.card_filter_add_card_filter_not
    (s := pairs) fun p => p.2 ∈ (assign selectors pool).places
  have htaken := h.card_taken_le
  have hleft := h.card_left_le
  omega

end Count

/-! ## Main statement -/

/-- **First fit is maximal and at least half as large as any matching.** Every filled slot holds a
candidate that its selector accepts. No candidate that holds no slot is accepted by the selector of an
empty slot. And no matching of slots and candidates has more than twice as many pairs as there are
filled slots. -/
theorem assign_matching (selectors : List Selector) (pool : List Attributes) :
    (∀ (j i : Nat), (assign selectors pool).held[j]? = some (some i) →
      ∃ s c, selectors[j]? = some s ∧ pool[i]? = some c ∧ s.accepts c = true) ∧
    (∀ (j i : Nat) (s : Selector) (c : Attributes), selectors[j]? = some s → pool[i]? = some c →
      (assign selectors pool).held[j]? = some none →
      (∀ k : Nat, (assign selectors pool).held[k]? ≠ some (some i)) → s.accepts c = false) ∧
    ∀ pairs, IsMatching selectors pool pairs →
      pairs.card ≤ 2 * (assign selectors pool).held.countP Option.isSome := by
  refine ⟨fun j i => accepts_of_held, fun j i s c hs hc hempty hleft => ?_, fun pairs h => h.card_le⟩
  apply accepts_eq_false_of_left_over hs hc hempty
  intro hplace
  obtain ⟨k, hk⟩ := Assignment.mem_places.1 hplace
  exact hleft k hk

/-- The bound is reached. Crossing over, both candidates would find a slot; first fit gives the first
slot to the candidate that fits both, and the other candidate does not fit the second one. -/
theorem assign_matching_contested :
    ∃ contains equals : Selector, ∃ pool : List Attributes,
      (assign [contains, equals] pool).held = [some 0, none] ∧
      (∃ s c, [contains, equals][0]? = some s ∧ pool[0]? = some c ∧ s.accepts c = true) ∧
      (∀ c, pool[1]? = some c → equals.accepts c = false) ∧
      IsMatching [contains, equals] pool {(0, 1), (1, 0)} ∧
      ({(0, 1), (1, 0)} : Finset (Nat × Nat)).card ≤
        2 * (assign [contains, equals] pool).held.countP Option.isSome := by
  let contains : Selector := .condition ⟨"a", .contains, "x", _, rfl⟩
  let equals : Selector := .condition ⟨"a", .equals, "x", _, rfl⟩
  let both : Attributes := TextMap.ofList [("a", "x")]
  let one : Attributes := TextMap.ofList [("a", "xy")]
  have hheld : (assign [contains, equals] [both, one]).held = [some 0, none] := by decide +kernel
  have hcross : contains.accepts one = true ∧ equals.accepts both = true := by decide +kernel
  have hpairs : IsMatching [contains, equals] [both, one] {(0, 1), (1, 0)} := by
    refine ⟨fun p hp => ?_, by simp [Set.InjOn], by simp [Set.InjOn]⟩
    rcases Finset.mem_insert.1 hp with rfl | hp
    · exact ⟨contains, one, rfl, rfl, hcross.1⟩
    · obtain rfl := Finset.mem_singleton.1 hp
      exact ⟨equals, both, rfl, rfl, hcross.2⟩
  obtain ⟨hfilled, hempty, hcard⟩ := assign_matching [contains, equals] [both, one]
  rw [hheld] at hfilled hempty
  refine ⟨contains, equals, [both, one], hheld, hfilled 0 0 rfl, fun c hc => ?_, hpairs,
    hcard _ hpairs⟩
  apply hempty 1 1 equals c rfl hc rfl
  intro k hk
  match k with
  | 0 => cases hk
  | 1 => cases hk

end SlotQuery
