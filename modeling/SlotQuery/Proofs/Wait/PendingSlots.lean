import SlotQuery.Proofs.Query.FirstFit
import SlotQuery.Proofs.Wait.SlotPasses

/-!
# What is pending when a wait for slots runs out of time

A wait that fails for want of time tells how many slots are not as its mode asks for. A pool that leaves
the wait open leaves at least one such slot. Before the first pool all slots count as empty, and empty
slots are what a wait for empty slots asks for: if none of its passes fetched a pool, it fails although
nothing is pending. Main statement: `waitForSlots_timeout_pending`.
-/

namespace SlotQuery

variable {set : SelectorSet} {options : WaitOptions} {mode : WaitMode}
  {fetched : List (Except FleetError (List Attributes))} {n : Nat}

/-! ## Slots of a pool -/

theorem Slots.pending_le_length (mode : WaitMode) (slots : Slots) :
    Slots.pending mode slots ≤ slots.length := by
  cases mode with
  | available => exact List.countP_le_length
  | unavailable => exact List.countP_le_length

/-- Nothing is pending just when the slots are as the mode asks for. -/
theorem pending_assign_eq_zero_iff {pool : List Attributes} :
    Slots.pending mode (set.assign pool).slots = 0 ↔ mode.isReached (set.assign pool) = true := by
  cases mode with
  | available =>
    rw [Slots.pending, List.countP_eq_zero, Assignment.slots, List.forall_mem_map,
      WaitMode.isReached, Assignment.isComplete, List.all_eq_true]
    refine forall₂_congr fun held h => ?_
    rw [← isSome_getElem?_of_held h, Bool.not_eq_true, Option.isNone_eq_false_iff]
    rfl
  | unavailable =>
    rw [Slots.pending, List.countP_eq_zero, Assignment.slots, List.forall_mem_map,
      WaitMode.isReached, Assignment.isVacant, List.all_eq_true]
    refine forall₂_congr fun held h => ?_
    rw [Option.isNone_iff_eq_none, ← Option.not_isSome_iff_eq_none, ← isSome_getElem?_of_held h]
    rfl

/-! ## The last pool -/

namespace SelectorSet

/-- The slots that a pass knows are those of a pool that was fetched, or all are empty. -/
theorem lastSlots_cases (set : SelectorSet) (fetched : List (Except FleetError (List Attributes))) :
    (∃ pool, .ok pool ∈ fetched ∧ set.lastSlots fetched = (set.assign pool).slots) ∨
      ((∀ pool, .ok pool ∉ fetched) ∧ set.lastSlots fetched = set.emptySlots) := by
  induction fetched using List.reverseRecOn with
  | nil => exact .inr ⟨fun pool => List.not_mem_nil, rfl⟩
  | append_singleton fetched f ih =>
    cases f with
    | ok pool =>
      exact .inl ⟨pool, List.mem_append_right fetched List.mem_cons_self, lastSlots_append_ok pool⟩
    | error e =>
      rw [lastSlots_append_error]
      rcases ih with ⟨pool, hpool, hslots⟩ | ⟨hnone, hslots⟩
      · exact .inl ⟨pool, List.mem_append_left _ hpool, hslots⟩
      · refine .inr ⟨fun pool hpool => ?_, hslots⟩
        rcases List.mem_append.1 hpool with hpool | hpool
        · exact hnone pool hpool
        · cases List.mem_singleton.1 hpool

theorem length_lastSlots (set : SelectorSet) (fetched : List (Except FleetError (List Attributes))) :
    (set.lastSlots fetched).length = set.size := by
  rcases set.lastSlots_cases fetched with ⟨pool, -, hslots⟩ | ⟨-, hslots⟩
  · rw [hslots, Assignment.slots, List.length_map]
    exact length_held_assign set.selectors pool
  · rw [hslots, emptySlots, List.length_map]
    rfl

/-- Of the slots of no pool at all every one is pending in a wait for full slots, and none in a wait for
empty ones. -/
theorem pending_emptySlots (set : SelectorSet) :
    Slots.pending .available set.emptySlots = set.size ∧
      Slots.pending .unavailable set.emptySlots = 0 := by
  constructor
  · rw [Slots.pending, emptySlots, List.countP_map]
    exact congrFun List.countP_true set.selectors
  · rw [Slots.pending, emptySlots, List.countP_map]
    exact congrFun List.countP_false set.selectors

end SelectorSet

namespace SlotWait

/-- As long as no pass has decided, no pool gave the slots asked for. -/
theorem isReached_eq_false_of_open {pool : List Attributes} (hopen : Open set options.mode fetched n)
    (hbefore : ∀ m < n, ∀ r, ¬ Decides set options fetched m r)
    (hpool : .ok pool ∈ fetched.take (n + 1)) : options.mode.isReached (set.assign pool) = false := by
  obtain ⟨m, hlt, hget⟩ := List.mem_take_iff_getElem.1 hpool
  obtain ⟨hle, hlen⟩ := Nat.lt_min.1 hlt
  have hm : fetched[m]? = some (.ok pool) := hget ▸ List.getElem?_eq_getElem hlen
  rcases Nat.lt_succ_iff_lt_or_eq.1 hle with hlt | rfl
  · rw [← Bool.not_eq_true]
    intro hreached
    exact hbefore m hlt _ (.reached hm hreached)
  · cases hopen with
    | pool hpool' hopen =>
      cases hm.symm.trans hpool'
      exact hopen
    | failure herror htransient => cases hm.symm.trans herror

/-- Before any pass has decided, a slot is pending unless empty slots are waited for and no pool was
fetched. -/
theorem one_le_pending_iff (hset : set.selectors ≠ []) (hopen : Open set options.mode fetched n)
    (hbefore : ∀ m < n, ∀ r, ¬ Decides set options fetched m r) :
    1 ≤ Slots.pending options.mode (set.lastSlots (fetched.take (n + 1))) ↔
      options.mode = .available ∨ ∃ pool, .ok pool ∈ fetched.take (n + 1) := by
  rcases set.lastSlots_cases (fetched.take (n + 1)) with ⟨pool, hpool, hslots⟩ | ⟨hnone, hslots⟩
  · have hreached := isReached_eq_false_of_open hopen hbefore hpool
    have hpending : Slots.pending options.mode (set.assign pool).slots ≠ 0 := by
      intro hzero
      rw [pending_assign_eq_zero_iff, hreached] at hzero
      cases hzero
    rw [hslots]
    exact ⟨fun _ => .inr ⟨pool, hpool⟩, fun _ => Nat.pos_of_ne_zero hpending⟩
  · obtain ⟨hall, hzero⟩ := set.pending_emptySlots
    rw [hslots]
    cases hmode : options.mode with
    | available =>
      rw [hall]
      exact ⟨fun _ => .inl rfl, fun _ => List.length_pos_iff.2 hset⟩
    | unavailable =>
      rw [hzero]
      constructor
      · intro hpos
        exact absurd hpos (Nat.not_succ_le_zero 0)
      · rintro (hmode | ⟨pool, hpool⟩)
        · cases hmode
        · exact absurd hpool (hnone pool)

end SlotWait

/-! ## Main statement -/

open SlotWait

/-- **What is pending at the end.** A wait for the slots of some selectors that fails because its own
limit has run out has no more pending slots than selectors. It has a pending slot if it waited for full
slots or if some pass fetched a pool, and none if it waited for empty slots and every pass failed. -/
theorem waitForSlots_timeout_pending (hset : set.selectors ≠ [])
    (hfetched : ∀ elapsed pending, .error (.timeout elapsed pending) ∉ fetched)
    {passes : Nat} {elapsed : Duration} {pending : Nat}
    (h : waitForSlots set options fetched = some ⟨passes, .error (.timeout elapsed pending)⟩) :
    pending ≤ set.size ∧
      (1 ≤ pending ↔ options.mode = .available ∨ ∃ pool, .ok pool ∈ fetched.take passes) := by
  obtain ⟨n, rfl, hverdict, hbefore⟩ := Watch.run_eq_some_iff.1 h
  cases verdict?_eq_ended_iff.1 hverdict with
  | failed hf => exact absurd (List.mem_of_getElem? hf) (hfetched elapsed pending)
  | fatal hopen =>
    constructor
    · rw [← set.length_lastSlots (fetched.take (n + 1))]
      exact Slots.pending_le_length options.mode _
    · apply one_le_pending_iff hset hopen
      intro m hm r hr
      exact hbefore m hm r (verdict?_eq_ended_iff.2 hr)

/-- A pool fills the only slot of a wait for empty slots, and two failures follow. The limit lies between
the second pass and the third one, which still counts the slot of that pool. -/
theorem waitForSlots_timeout_pending_stale_slot :
    ∃ (set : SelectorSet) (options : WaitOptions) (fetched : List (Except FleetError (List Attributes))),
      set.selectors ≠ [] ∧ (∀ elapsed pending, .error (.timeout elapsed pending) ∉ fetched) ∧
      waitForSlots set options fetched = some ⟨3, .error (.timeout (options.interval.times 2) 1)⟩ ∧
      1 ≤ set.size ∧ (options.mode = .available ∨ ∃ pool, .ok pool ∈ fetched.take 3) := by
  let set : SelectorSet := ⟨[.condition ⟨"a", .equals, "1", _, rfl⟩]⟩
  let candidate : Attributes := TextMap.ofList [("a", "1")]
  let options : WaitOptions :=
    { interval := .ofMillis 1000, timeout := ⟨some (.ofMillis 1000), true⟩, mode := .unavailable }
  let fetched : List (Except FleetError (List Attributes)) :=
    [.ok [candidate], .error (.io "members"), .error (.io "members")]
  have hset : set.selectors ≠ [] := List.cons_ne_nil _ _
  have hfetched : ∀ elapsed pending, .error (.timeout elapsed pending) ∉ fetched := by simp [fetched]
  have hheld : set.assign [candidate] = ⟨[candidate], [some 0]⟩ := by decide +kernel
  have hrun : waitForSlots set options fetched =
      some ⟨3, .error (.timeout (options.interval.times 2) 1)⟩ := by
    simp only [waitForSlots, Watch.run, fetched, Watch.runFrom, Watch.step, Watch.pass, watchSlots, hheld]
    rfl
  obtain ⟨hle, hpos⟩ := waitForSlots_timeout_pending hset hfetched hrun
  exact ⟨set, options, fetched, hset, hfetched, hrun, hle, hpos.1 (Nat.le_refl 1)⟩

/-- A wait for an empty slot whose passes all fail runs out of time with nothing pending. -/
theorem waitForSlots_timeout_nothing_pending :
    ∃ (set : SelectorSet) (options : WaitOptions) (fetched : List (Except FleetError (List Attributes)))
      (elapsed : Duration), set.selectors ≠ [] ∧
      (∀ elapsed pending, .error (.timeout elapsed pending) ∉ fetched) ∧
      waitForSlots set options fetched = some ⟨3, .error (.timeout elapsed 0)⟩ := by
  let options : WaitOptions :=
    { interval := .ofMillis 1000, timeout := ⟨some (.ofMillis 1000), true⟩, mode := .unavailable }
  refine ⟨⟨[.condition ⟨"a", .equals, "1", _, rfl⟩]⟩, options,
    [.error (.io "members"), .error (.io "members"), .error (.io "members")], options.interval.times 2,
    List.cons_ne_nil _ _, by simp, ?_⟩
  simp only [waitForSlots, Watch.run, Watch.runFrom, Watch.step, Watch.pass, watchSlots]
  rfl

end SlotQuery
