import SlotQuery.Proofs.Query.Matching
import SlotQuery.Proofs.Wait.SlotPasses

/-!
# When a wait for empty slots finishes

First fit leaves all slots empty just when no selector accepts any candidate (`isVacant_iff`): as long as
they are all empty there is a slot for whoever fits one. In that form the order of selectors and candidates
does not matter, and it is the pool alone that decides whether a pass of a wait for empty slots finishes.
Main statement: `unavailable_iff_nobodyFits`.
-/

namespace SlotQuery

variable {selectors : List Selector} {pool : List Attributes}

/-- No selector accepts any of the candidates. -/
def NobodyFits (selectors : List Selector) (pool : List Attributes) : Prop :=
  ∀ s ∈ selectors, ∀ c ∈ pool, s.accepts c = false

theorem nobodyFits_perm {selectors' : List Selector} {pool' : List Attributes}
    (hselectors : selectors.Perm selectors') (hpool : pool.Perm pool') :
    NobodyFits selectors' pool' ↔ NobodyFits selectors pool := by
  simp only [NobodyFits, hselectors.mem_iff, hpool.mem_iff]

/-! ## Empty slots -/

theorem Assignment.isVacant_iff {a : Assignment} :
    a.isVacant = true ↔ ∀ (j i : Nat), a.held[j]? ≠ some (some i) := by
  rw [isVacant, List.all_eq_true]
  constructor
  · intro h j i hj
    cases h _ (List.mem_of_getElem? hj)
  · intro h held hheld
    obtain ⟨j, hj⟩ := List.getElem?_of_mem hheld
    cases held with
    | none => rfl
    | some i => exact absurd hj (h j i)

/-- First fit misses nobody while all slots are empty. -/
theorem isVacant_assign_iff :
    (assign selectors pool).isVacant = true ↔ NobodyFits selectors pool := by
  rw [Assignment.isVacant_iff]
  constructor
  · intro hempty s hs c hc
    obtain ⟨j, hj⟩ := List.getElem?_of_mem hs
    obtain ⟨i, hi⟩ := List.getElem?_of_mem hc
    have hlt : j < (assign selectors pool).held.length := by
      rw [length_held_assign]
      exact (List.getElem?_eq_some_iff.1 hj).1
    have hnone : (assign selectors pool).held[j]? = some none := by
      rw [List.getElem?_eq_getElem hlt, Option.some_inj]
      cases hheld : (assign selectors pool).held[j] with
      | none => rfl
      | some k => exact absurd (List.getElem?_eq_some_iff.2 ⟨hlt, hheld⟩) (hempty j k)
    apply accepts_eq_false_of_left_over hj hi hnone
    intro hplace
    obtain ⟨k, hk⟩ := Assignment.mem_places.1 hplace
    exact hempty k i hk
  · intro hnobody j i hj
    obtain ⟨s, c, hs, hc, haccepts⟩ := accepts_of_held hj
    rw [hnobody s (List.mem_of_getElem? hs) c (List.mem_of_getElem? hc)] at haccepts
    cases haccepts

theorem SelectorSet.slots_of_isVacant {set : SelectorSet} (h : (set.assign pool).isVacant = true) :
    (set.assign pool).slots = set.emptySlots := by
  have hslots : (set.assign pool).slots = List.replicate (set.assign pool).held.length none := by
    rw [Assignment.slots, List.map_eq_replicate_iff]
    intro held hheld
    rw [Option.isNone_iff_eq_none.1 (List.all_eq_true.1 h held hheld)]
    rfl
  rw [hslots, SelectorSet.assign, length_held_assign, SelectorSet.emptySlots, List.map_const']

/-! ## Passes of a wait for empty slots -/

open SlotWait

section Pass

variable {set : SelectorSet} {options : WaitOptions} {timeout : Timeout} {elapsed : Duration}
  {known slots : Slots} {fetched : List (Except FleetError (List Attributes))} {n : Nat}

/-- A pass over a pool finishes the wait, whatever the time is and whatever was known before, if nobody
fits. -/
theorem step_unavailable_iff :
    (watchSlots set .unavailable).step timeout elapsed known (.ok pool) = .ended (.ok ⟨slots, false⟩) ↔
      slots = set.emptySlots ∧ NobodyFits set.selectors pool := by
  rw [← isVacant_assign_iff, Watch.step_eq_iff]
  constructor
  · intro h
    generalize hv : (Verdict.ended (.ok ⟨slots, false⟩) : Verdict Slots) = v at h
    cases h with
    | failed hpass => cases hv
    | finished hpass hfinished =>
      cases hpass
      cases hv
      exact ⟨SelectorSet.slots_of_isVacant hfinished, hfinished⟩
    | lapsed hpass hunfinished hexpired =>
      rw [Watch.lapse] at hv
      split at hv <;> cases hv
    | again hpass hunfinished hexpired => cases hv
  · rintro ⟨rfl, hvacant⟩
    have hreached : WaitMode.unavailable.isReached (set.assign pool) = true := hvacant
    rw [← SelectorSet.slots_of_isVacant hvacant]
    exact .finished (pass_of_reached hreached) rfl

/-- A wait for empty slots that comes to a pass over a pool finishes there if nobody fits. -/
theorem waitForSlots_unavailable_iff (hmode : options.mode = .unavailable)
    (hpool : fetched[n]? = some (.ok pool)) (hreached : waitForSlots set options (fetched.take n) = none) :
    waitForSlots set options fetched = some ⟨n + 1, .ok ⟨slots, false⟩⟩ ↔
      slots = set.emptySlots ∧ NobodyFits set.selectors pool := by
  rw [waitForSlots] at hreached
  rw [waitForSlots, Watch.run_eq_some_iff_of_reached hreached, Watch.verdict?_eq, hpool, hmode,
    Option.map_some, Option.some_inj, step_unavailable_iff]

end Pass

/-- **Unavailable means that nobody fits.** All slots are empty just when no selector accepts any candidate,
so the order of either does not matter. A pass of a wait for empty slots that fetched a pool finishes the
wait in that case and in no other, whatever its limit, the time and the passes in front of it. -/
theorem unavailable_iff_nobodyFits (set : SelectorSet) (pool : List Attributes) :
    ((set.assign pool).isVacant = true ↔ NobodyFits set.selectors pool) ∧
    (∀ (selectors' : List Selector) (pool' : List Attributes), set.selectors.Perm selectors' →
      pool.Perm pool' → (assign selectors' pool').isVacant = (set.assign pool).isVacant) ∧
    (∀ (timeout : Timeout) (elapsed : Duration) (known slots : Slots),
      (watchSlots set .unavailable).step timeout elapsed known (.ok pool) =
        .ended (.ok ⟨slots, false⟩) ↔ slots = set.emptySlots ∧ NobodyFits set.selectors pool) ∧
    ∀ (options : WaitOptions) (fetched : List (Except FleetError (List Attributes))) (n : Nat),
      options.mode = .unavailable → fetched[n]? = some (.ok pool) →
      waitForSlots set options (fetched.take n) = none →
      ∀ slots, waitForSlots set options fetched = some ⟨n + 1, .ok ⟨slots, false⟩⟩ ↔
        slots = set.emptySlots ∧ NobodyFits set.selectors pool := by
  refine ⟨isVacant_assign_iff, fun selectors' pool' hselectors hpool => ?_,
    fun timeout elapsed known slots => step_unavailable_iff,
    fun options fetched n hmode hpool hreached slots =>
      waitForSlots_unavailable_iff hmode hpool hreached⟩
  rw [Bool.eq_iff_iff, SelectorSet.assign, isVacant_assign_iff, isVacant_assign_iff,
    nobodyFits_perm hselectors hpool]

/-- The second slot alone keeps the wait going at first. The pass behind a failure and behind the limit
finishes it: its only candidate fits no slot. -/
theorem unavailable_iff_nobodyFits_third_pass :
    ∃ (set : SelectorSet) (options : WaitOptions) (fits other : Attributes),
      let fetched := [.ok [other, fits], .error (.io "members"), .ok [other]]
      options.mode = .unavailable ∧ set.size = 2 ∧
      waitForSlots set options (fetched.take 2) = none ∧
      (set.assign [fits, other]).isVacant = (set.assign [other, fits]).isVacant ∧
      waitForSlots set options fetched = some ⟨3, .ok ⟨[none, none], false⟩⟩ := by
  let set : SelectorSet :=
    ⟨[.condition ⟨"a", .equals, "1", _, rfl⟩, .condition ⟨"a", .equals, "2", _, rfl⟩]⟩
  let options : WaitOptions :=
    { interval := .ofMillis 400, timeout := ⟨some (.ofMillis 500), true⟩, mode := .unavailable }
  let fits : Attributes := TextMap.ofList [("a", "2")]
  let other : Attributes := TextMap.ofList [("a", "3")]
  let fetched : List (Except FleetError (List Attributes)) :=
    [.ok [other, fits], .error (.io "members"), .ok [other]]
  have hheld : set.assign [other, fits] = ⟨[other, fits], [none, some 1]⟩ := by decide +kernel
  have hreached : waitForSlots set options (fetched.take 2) = none := by
    simp only [fetched, List.take_succ_cons, List.take_zero]
    simp only [waitForSlots, Watch.run, Watch.runFrom, Watch.step, Watch.pass, watchSlots, hheld]
    rfl
  have hvacant : (set.assign [other]).isVacant = true := by decide +kernel
  obtain ⟨hnobody, -, -, hwait⟩ := unavailable_iff_nobodyFits set [other]
  obtain ⟨-, hperm, -⟩ := unavailable_iff_nobodyFits set [other, fits]
  refine ⟨set, options, fits, other, rfl, rfl, hreached, hperm _ _ (.refl _) (.swap _ _ _), ?_⟩
  exact (hwait options fetched 2 rfl rfl hreached [none, none]).2 ⟨rfl, hnobody.1 hvacant⟩

end SlotQuery
