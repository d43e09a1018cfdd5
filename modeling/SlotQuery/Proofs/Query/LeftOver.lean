import SlotQuery.Proofs.Query.FirstFit

/-!
# Candidates that get no slot

A candidate is offered to the slots once and takes one empty slot at most, so a filled slot stays as it
is whoever comes behind (`offerAll_filled`), and a candidate that is in no slot in the end has changed
nothing when it came (`offer_cases`). Without it the candidates behind it come under other numbers, which
the slots take over but do not look at (`offerAll_map`). Main statement: `assign_without_left_over`.
-/

namespace SlotQuery

variable {selectors : List Selector} {pool : List Attributes} {held : List (Option Nat)}
  {candidate : Attributes} {index i j k : Nat}

/-! ## One candidate -/

/-- A slot that is filled is not given away. -/
theorem offer_filled (h : held[j]? = some (some i)) :
    (offer index candidate selectors held)[j]? = some (some i) := by
  induction selectors generalizing held j with
  | nil => exact h
  | cons s ss ih =>
    cases held with
    | nil => cases h
    | cons first rest =>
      rw [offer]
      split
      · next htaken =>
        cases j with
        | zero =>
          obtain rfl : first = some i := Option.some.inj h
          cases htaken
        | succ j => exact h
      · cases j with
        | zero => exact h
        | succ j => exact ih h

/-- A candidate that is offered to the slots is in one of them, or all are as they were. -/
theorem offer_cases (index : Nat) (candidate : Attributes) (selectors : List Selector)
    (held : List (Option Nat)) :
    some index ∈ offer index candidate selectors held ∨
      offer index candidate selectors held = held := by
  induction selectors generalizing held with
  | nil => exact .inr rfl
  | cons s ss ih =>
    cases held with
    | nil => exact .inr rfl
    | cons first rest =>
      rw [offer]
      split
      · exact .inl List.mem_cons_self
      · rcases ih rest with hmem | hsame
        · exact .inl (List.mem_cons_of_mem first hmem)
        · exact .inr (by rw [hsame])

/-- The slots do not look at the numbers of candidates. -/
theorem offer_map (f : Nat → Nat) (index : Nat) (candidate : Attributes) (selectors : List Selector)
    (held : List (Option Nat)) :
    offer (f index) candidate selectors (held.map (Option.map f)) =
      (offer index candidate selectors held).map (Option.map f) := by
  induction selectors generalizing held with
  | nil => rfl
  | cons s ss ih =>
    cases held with
    | nil => rfl
    | cons first rest =>
      rw [List.map_cons, offer, offer, Option.isNone_map]
      split
      · rfl
      · rw [ih, List.map_cons]

/-! ## All candidates -/

theorem offerAll_filled (h : held[j]? = some (some i)) :
    (offerAll selectors index pool held)[j]? = some (some i) := by
  induction pool generalizing index held with
  | nil => exact h
  | cons c cs ih => exact ih (offer_filled h)

theorem offerAll_append (selectors : List Selector) (index : Nat) (pool more : List Attributes)
    (held : List (Option Nat)) :
    offerAll selectors index (pool ++ more) held =
      offerAll selectors (index + pool.length) more (offerAll selectors index pool held) := by
  induction pool generalizing index held with
  | nil => rfl
  | cons c cs ih =>
    rw [List.cons_append, offerAll, offerAll, ih, List.length_cons, Nat.add_right_comm, Nat.add_assoc]

/-- Candidates that come under other numbers find the same slots. -/
theorem offerAll_map {f : Nat → Nat} {index' : Nat} (hf : ∀ n, f (index + n) = index' + n) :
    offerAll selectors index' pool (held.map (Option.map f)) =
      (offerAll selectors index pool held).map (Option.map f) := by
  induction pool generalizing index index' held with
  | nil => rfl
  | cons c cs ih =>
    have hnext : ∀ n, f (index + 1 + n) = index' + 1 + n := by
      intro n
      rw [Nat.add_assoc, hf, Nat.add_assoc]
    have hfirst : f index = index' := hf 0
    rw [offerAll, offerAll, ← ih hnext, ← offer_map, hfirst]

/-! ## A pool without one of its candidates -/

/-- The place of a candidate once the one at the place `gap` is gone. -/
def placeWithout (gap i : Nat) : Nat := if gap < i then i - 1 else i

theorem placeWithout_of_lt (h : i < k) : placeWithout k i = i := if_neg (Nat.lt_asymm h)

theorem placeWithout_behind (k n : Nat) : placeWithout k (k + 1 + n) = k + n := by
  rw [placeWithout, if_pos (by omega)]
  omega

theorem getElem?_eraseIdx_placeWithout (h : i ≠ k) :
    (pool.eraseIdx k)[placeWithout k i]? = pool[i]? := by
  rcases Nat.lt_or_gt_of_ne h with hlt | hgt
  · rw [placeWithout_of_lt hlt, List.getElem?_eraseIdx_of_lt hlt]
  · rw [placeWithout, if_pos hgt, List.getElem?_eraseIdx_of_ge (Nat.le_sub_one_of_lt hgt),
      Nat.sub_add_cancel (Nat.one_le_of_lt hgt)]

/-- What a slot holds is a place of the pool. -/
theorem lt_length_of_mem_held (h : some i ∈ (assign selectors pool).held) : i < pool.length := by
  obtain ⟨j, hj⟩ := List.getElem?_of_mem h
  obtain ⟨-, -, c, hc, -⟩ := mem_choices_of_held hj
  exact (List.getElem?_eq_some_iff.1 hc).1

/-- Before its turn no slot holds a candidate or one behind it. -/
theorem map_placeWithout_held_take :
    (assign selectors (pool.take k)).held.map (Option.map (placeWithout k)) =
      (assign selectors (pool.take k)).held := by
  have hsame : ∀ held ∈ (assign selectors (pool.take k)).held,
      Option.map (placeWithout k) held = held := by
    intro held hheld
    cases held with
    | none => rfl
    | some i =>
      have hlt := lt_length_of_mem_held hheld
      rw [List.length_take] at hlt
      rw [Option.map_some, placeWithout_of_lt (by omega)]
  exact (List.map_congr_left hsame).trans (List.map_id' _)

/-- The slots after all candidates, told from those before the candidate at the place `k`. -/
theorem held_assign_eq_offerAll (hk : k < pool.length) :
    (assign selectors pool).held = offerAll selectors (k + 1) (pool.drop (k + 1))
      (offer k pool[k] selectors (assign selectors (pool.take k)).held) := by
  have hpool : pool = pool.take k ++ pool[k] :: pool.drop (k + 1) := by
    rw [← List.drop_eq_getElem_cons hk, List.take_append_drop]
  have hlen : (pool.take k).length = k := List.length_take_of_le (Nat.le_of_lt hk)
  conv_lhs => rw [hpool]
  rw [assign, offerAll_append, hlen, Nat.zero_add, offerAll]
  rfl

theorem held_assign_eraseIdx_eq_offerAll (hk : k < pool.length) :
    (assign selectors (pool.eraseIdx k)).held = offerAll selectors k (pool.drop (k + 1))
      (assign selectors (pool.take k)).held := by
  have hlen : (pool.take k).length = k := List.length_take_of_le (Nat.le_of_lt hk)
  rw [List.eraseIdx_eq_take_drop_succ, assign, offerAll_append, hlen, Nat.zero_add]
  rfl

theorem held_assign_eraseIdx (hk : k < pool.length) (h : some k ∉ (assign selectors pool).held) :
    (assign selectors (pool.eraseIdx k)).held =
      (assign selectors pool).held.map (Option.map (placeWithout k)) := by
  rw [held_assign_eq_offerAll hk] at h ⊢
  rcases offer_cases k pool[k] selectors (assign selectors (pool.take k)).held with htaken | hsame
  · -- the slot it takes would be its slot in the end
    obtain ⟨j, hj⟩ := List.getElem?_of_mem htaken
    exact absurd (List.mem_of_getElem? (offerAll_filled hj)) h
  · rw [hsame, held_assign_eraseIdx_eq_offerAll hk, ← offerAll_map (placeWithout_behind k),
      map_placeWithout_held_take]

theorem slots_assign_eraseIdx (hk : k < pool.length) (h : some k ∉ (assign selectors pool).held) :
    (assign selectors (pool.eraseIdx k)).slots = (assign selectors pool).slots := by
  rw [Assignment.slots, held_assign_eraseIdx hk h, List.map_map, Assignment.slots]
  refine List.map_congr_left fun held hheld => ?_
  cases held with
  | none => rfl
  | some i =>
    have hne : i ≠ k := by
      rintro rfl
      exact h hheld
    exact getElem?_eraseIdx_placeWithout hne

/-- **Winners do not depend on losers or latecomers.** A filled slot holds the same candidate whoever
stands behind the pool. And where a candidate has got no slot, the pool without it fills the same slots
with the same candidates, those behind it one place further to the front. -/
theorem assign_without_left_over (selectors : List Selector) (pool : List Attributes) :
    (∀ (more : List Attributes) (j i : Nat), (assign selectors pool).held[j]? = some (some i) →
      (assign selectors (pool ++ more)).held[j]? = some (some i)) ∧
    ∀ k < pool.length, (∀ j : Nat, (assign selectors pool).held[j]? ≠ some (some k)) →
      (assign selectors (pool.eraseIdx k)).held =
        (assign selectors pool).held.map (Option.map (placeWithout k)) ∧
      (assign selectors (pool.eraseIdx k)).slots = (assign selectors pool).slots := by
  constructor
  · intro more j i h
    rw [assign, offerAll_append]
    exact offerAll_filled h
  · intro k hk hleft
    have hmem : some k ∉ (assign selectors pool).held := by
      intro hmem
      obtain ⟨j, hj⟩ := List.getElem?_of_mem hmem
      exact hleft j hj
    exact ⟨held_assign_eraseIdx hk hmem, slots_assign_eraseIdx hk hmem⟩

/-- The candidate between the two winners fits no slot, and the one behind them comes too late for the
slot that it fits. -/
theorem assign_without_left_over_between :
    ∃ (first second : Selector) (both other late : Attributes),
      (assign [first, second] [both, other, both]).held = [some 0, some 2] ∧
      (∀ j : Nat, (assign [first, second] [both, other, both]).held[j]? ≠ some (some 1)) ∧
      second.accepts late = true ∧
      (assign [first, second] [both, other, both, late]).held[1]? = some (some 2) ∧
      (assign [first, second] [both, both]).held = [some 0, some 1] ∧
      (assign [first, second] [both, both]).slots =
        (assign [first, second] [both, other, both]).slots := by
  let first : Selector := .condition ⟨"a", .contains, "x", _, rfl⟩
  let second : Selector := .condition ⟨"a", .equals, "x", _, rfl⟩
  let both : Attributes := TextMap.ofList [("a", "x")]
  let other : Attributes := TextMap.ofList [("a", "y")]
  have hheld : (assign [first, second] [both, other, both]).held = [some 0, some 2] := by
    decide +kernel
  have hleft : ∀ j : Nat, (assign [first, second] [both, other, both]).held[j]? ≠ some (some 1) := by
    intro j hj
    rw [hheld] at hj
    match j with
    | 0 => cases hj
    | 1 => cases hj
  obtain ⟨hlate, hwithout⟩ := assign_without_left_over [first, second] [both, other, both]
  obtain ⟨herased, hslots⟩ := hwithout 1 (by decide) hleft
  rw [hheld] at herased
  exact ⟨first, second, both, other, both, hheld, hleft, by decide +kernel,
    hlate [both] 1 2 (by rw [hheld]; rfl), herased, hslots⟩

end SlotQuery
