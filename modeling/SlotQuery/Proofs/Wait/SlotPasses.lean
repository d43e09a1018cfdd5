import Mathlib.Data.List.Induction
import SlotQuery.Proofs.Wait.Passes
import SlotQuery.Wait.Slots

/-!
# How a wait for slots ends

Pass number `n`, counted from zero, is made when the wait has lasted for `n` intervals. `Decides` says
which passes decide a wait, and with what: the slots of the pool that the pass fetched, a failure that is
final, or a limit that is passed while the slots of the last pool are not as asked for. Main statement:
`waitForSlots_eq_some_iff`, the wait ends with the first pass that decides.
-/

namespace SlotQuery

variable {set : SelectorSet} {options : WaitOptions} {mode : WaitMode}
  {fetched : List (Except FleetError (List Attributes))} {n : Nat}

/-- The slots of the last pool that was fetched, all empty without one. -/
def SelectorSet.lastSlots (set : SelectorSet) (fetched : List (Except FleetError (List Attributes))) :
    Slots :=
  match (fetched.filterMap Except.toOption).getLast? with
  | some pool => (set.assign pool).slots
  | none => set.emptySlots

theorem SelectorSet.lastSlots_append_ok (pool : List Attributes) :
    set.lastSlots (fetched ++ [.ok pool]) = (set.assign pool).slots := by
  simp [lastSlots, Except.toOption]

theorem SelectorSet.lastSlots_append_error (e : FleetError) :
    set.lastSlots (fetched ++ [.error e]) = set.lastSlots fetched := by
  simp [lastSlots, Except.toOption]

namespace SlotWait

/-- The pass leaves the wait open: it fetched a pool that does not give the slots asked for, or failed and
may succeed later. -/
inductive Open (set : SelectorSet) (mode : WaitMode)
    (fetched : List (Except FleetError (List Attributes))) (n : Nat) : Prop where
  | pool {pool : List Attributes} : fetched[n]? = some (.ok pool) →
      mode.isReached (set.assign pool) = false → Open set mode fetched n
  | failure {e : FleetError} : fetched[n]? = some (.error e) → e.isTransient = true →
      Open set mode fetched n

/-- The pass decides the wait. -/
inductive Decides (set : SelectorSet) (options : WaitOptions)
    (fetched : List (Except FleetError (List Attributes))) (n : Nat) :
    Except FleetError (Outcome Slots) → Prop where
  /-- The pool gives the slots asked for, whatever the limit. -/
  | reached {pool : List Attributes} : fetched[n]? = some (.ok pool) →
      options.mode.isReached (set.assign pool) = true →
      Decides set options fetched n (.ok ⟨(set.assign pool).slots, false⟩)
  /-- The failure is final. -/
  | failed {e : FleetError} : fetched[n]? = some (.error e) → e.isTransient = false →
      Decides set options fetched n (.error e)
  /-- Time runs out, and that is an error. -/
  | fatal {limit : Duration} : Open set options.mode fetched n → options.timeout.limit = some limit →
      limit.nanos < n * options.interval.nanos → options.timeout.fatal = true →
      Decides set options fetched n (.error (.timeout (options.interval.times n)
        (Slots.pending options.mode (set.lastSlots (fetched.take (n + 1))))))
  /-- Time runs out, which does no harm. -/
  | lenient {limit : Duration} : Open set options.mode fetched n →
      options.timeout.limit = some limit → limit.nanos < n * options.interval.nanos →
      options.timeout.fatal = false →
      Decides set options fetched n (.ok ⟨set.lastSlots (fetched.take (n + 1)), true⟩)

/-! ## What a pass knows -/

/-- A wait keeps the slots of the last pool that it fetched. -/
theorem stateAfter_watchSlots :
    (watchSlots set mode).stateAfter set.emptySlots fetched = set.lastSlots fetched := by
  induction fetched using List.reverseRecOn with
  | nil => rfl
  | append_singleton fetched f ih =>
    rw [Watch.stateAfter, List.foldl_append, List.foldl_cons, List.foldl_nil]
    rw [Watch.stateAfter] at ih
    rw [ih]
    cases f with
    | ok pool => exact (SelectorSet.lastSlots_append_ok pool).symm
    | error e =>
      rw [SelectorSet.lastSlots_append_error]
      cases he : e.isTransient <;> simp [Watch.pass, watchSlots, he, Except.map, Except.toOption]

/-- What a pass knows when it leaves the wait open. -/
def known (set : SelectorSet) (mode : WaitMode) (fetched : List (Except FleetError (List Attributes)))
    (n : Nat) : Pass Slots :=
  let slots := set.lastSlots (fetched.take (n + 1))
  ⟨slots, false, Slots.pending mode slots⟩

/-- A pass that reaches what the mode asks for ends with its slots. -/
theorem pass_of_reached {slots : Slots} {pool : List Attributes}
    (h : mode.isReached (set.assign pool) = true) :
    (watchSlots set mode).pass slots (.ok pool) =
      .ok ⟨(set.assign pool).slots, true, Slots.pending mode (set.assign pool).slots⟩ := by
  rw [← h]
  rfl

theorem Open.exists_pass (h : Open set mode fetched n) :
    ∃ f, fetched[n]? = some f ∧
      (watchSlots set mode).pass (set.lastSlots (fetched.take n)) f = .ok (known set mode fetched n) := by
  cases h with
  | @pool pool hf hopen =>
    refine ⟨_, hf, ?_⟩
    rw [known, take_succ_of_getElem? hf, SelectorSet.lastSlots_append_ok, ← hopen]
    rfl
  | @failure e hf htransient =>
    refine ⟨_, hf, ?_⟩
    rw [known, take_succ_of_getElem? hf, SelectorSet.lastSlots_append_error]
    simp only [Watch.pass, watchSlots, htransient, if_true]

/-- A pass over what was fetched finishes the wait with the slots of its pool, or leaves it open. -/
theorem finished_or_open {f : Except FleetError (List Attributes)} {p : Pass Slots}
    (hf : fetched[n]? = some f)
    (hp : (watchSlots set mode).pass (set.lastSlots (fetched.take n)) f = .ok p) :
    (∃ pool, f = .ok pool ∧ mode.isReached (set.assign pool) = true ∧ p.finished = true ∧
      p.state = (set.assign pool).slots) ∨
    (Open set mode fetched n ∧ p = known set mode fetched n) := by
  have hknown (h : Open set mode fetched n) : p = known set mode fetched n := by
    obtain ⟨f', hf', hp'⟩ := h.exists_pass
    obtain rfl : f = f' := Option.some.inj (hf.symm.trans hf')
    exact Except.ok.inj (hp.symm.trans hp')
  cases f with
  | ok pool =>
    cases hreached : mode.isReached (set.assign pool) with
    | true =>
      rw [pass_of_reached hreached] at hp
      cases hp
      exact .inl ⟨pool, rfl, hreached, rfl, rfl⟩
    | false =>
      have hopen : Open set mode fetched n := .pool hf hreached
      exact .inr ⟨hopen, hknown hopen⟩
  | error e =>
    obtain ⟨htransient, -⟩ := Watch.pass_error_eq_ok_iff.1 hp
    have hopen : Open set mode fetched n := .failure hf htransient
    exact .inr ⟨hopen, hknown hopen⟩

/-! ## The deciding pass -/

theorem lapse_of_open {limit : Duration} (h : Open set options.mode fetched n)
    (hlimit : options.timeout.limit = some limit) (hlong : limit.nanos < n * options.interval.nanos) :
    Decides set options fetched n
      (Watch.lapse options.timeout (options.interval.times n) (known set options.mode fetched n)) := by
  cases hfatal : options.timeout.fatal with
  | true =>
    rw [Watch.lapse_of_fatal hfatal]
    exact .fatal h hlimit hlong hfatal
  | false =>
    rw [Watch.lapse_of_lenient hfatal]
    exact .lenient h hlimit hlong hfatal

theorem follows_of_open {limit : Duration} (h : Open set options.mode fetched n)
    (hlimit : options.timeout.limit = some limit) (hlong : limit.nanos < n * options.interval.nanos) :
    ∃ f, fetched[n]? = some f ∧ Watch.Follows (watchSlots set options.mode) options.timeout
      (options.interval.times n) (set.lastSlots (fetched.take n)) f
      (.ended (Watch.lapse options.timeout (options.interval.times n)
        (known set options.mode fetched n))) := by
  obtain ⟨f, hf, hp⟩ := h.exists_pass
  exact ⟨f, hf, .lapsed hp rfl (Timeout.expired_iff.2 ⟨limit, hlimit, hlong⟩)⟩

/-- The wait ends at a pass exactly where this pass decides. -/
theorem verdict?_eq_ended_iff {result : Except FleetError (Outcome Slots)} :
    (watchSlots set options.mode).verdict? options set.emptySlots fetched n = some (.ended result) ↔
      Decides set options fetched n result := by
  rw [Watch.verdict?_eq_ended_iff_follows, stateAfter_watchSlots]
  constructor
  · rintro ⟨f, hf, hfollows⟩
    cases hfollows with
    | failed hp =>
      obtain ⟨rfl, hfinal⟩ := Watch.pass_eq_error_iff.1 hp
      exact .failed hf hfinal
    | @finished p hp hfinished =>
      rcases finished_or_open hf hp with ⟨pool, rfl, hreached, -, hstate⟩ | ⟨-, rfl⟩
      · rw [hstate]
        exact .reached hf hreached
      · cases hfinished
    | @lapsed p hp hunfinished hexpired =>
      obtain ⟨limit, hlimit, hlong⟩ := Timeout.expired_iff.1 hexpired
      rcases finished_or_open hf hp with ⟨-, -, -, hfinished, -⟩ | ⟨hopen, rfl⟩
      · rw [hunfinished] at hfinished
        cases hfinished
      · exact lapse_of_open hopen hlimit hlong
  · intro h
    cases h with
    | reached hf hreached => exact ⟨_, hf, .finished (pass_of_reached hreached) rfl⟩
    | failed hf hfinal => exact ⟨_, hf, .failed (Watch.pass_eq_error_iff.2 ⟨rfl, hfinal⟩)⟩
    | fatal hopen hlimit hlong hfatal =>
      have h := follows_of_open hopen hlimit hlong
      rwa [Watch.lapse_of_fatal hfatal] at h
    | lenient hopen hlimit hlong hlenient =>
      have h := follows_of_open hopen hlimit hlong
      rwa [Watch.lapse_of_lenient hlenient] at h

end SlotWait

open SlotWait

/-- **How a wait for slots ends.** It ends with the first pass that decides it, and goes on beyond what is
fetched if there is none. With a limit and some time between the passes it ends after the first pass
beyond the limit at the latest. -/
theorem waitForSlots_eq_some_iff (set : SelectorSet) (options : WaitOptions)
    (fetched : List (Except FleetError (List Attributes))) :
    (∀ passes result, waitForSlots set options fetched = some ⟨passes, result⟩ ↔
      ∃ n, passes = n + 1 ∧ Decides set options fetched n result ∧
        ∀ m < n, ∀ r, ¬ Decides set options fetched m r) ∧
    (waitForSlots set options fetched = none ↔ ∀ n r, ¬ Decides set options fetched n r) ∧
    (∀ limit, options.timeout.limit = some limit → 0 < options.interval.nanos →
      limit.nanos / options.interval.nanos + 2 ≤ fetched.length →
      ∃ e, waitForSlots set options fetched = some e ∧
        e.passes ≤ limit.nanos / options.interval.nanos + 2) := by
  refine ⟨fun passes result => ?_, ?_, fun limit hlimit hinterval hlen => ?_⟩
  · simp only [waitForSlots, Watch.run_eq_some_iff, ne_eq, verdict?_eq_ended_iff]
  · simp only [waitForSlots, Watch.run_eq_none_iff, ne_eq, verdict?_eq_ended_iff]
  · exact Watch.run_passes_le hlimit hinterval hlen

/-- Two failures follow a pool that fills one of two slots. The limit lies between the second pass and the
third one, which ends the wait with the slots of that pool. -/
theorem waitForSlots_stale_slots :
    ∃ (set : SelectorSet) (candidate : Attributes) (options : WaitOptions),
      let fetched := [.ok [candidate], .error (.io "members"), .error (.decode "members")]
      waitForSlots set options fetched = some ⟨3, .ok ⟨[some candidate, none], true⟩⟩ ∧
      Decides set options fetched 2 (.ok ⟨[some candidate, none], true⟩) ∧
      ∀ m < 2, ∀ r, ¬ Decides set options fetched m r := by
  let set : SelectorSet :=
    ⟨[.condition ⟨"a", .equals, "1", _, rfl⟩, .condition ⟨"a", .equals, "2", _, rfl⟩]⟩
  let candidate : Attributes := TextMap.ofList [("a", "1")]
  let options : WaitOptions :=
    { interval := .ofMillis 400, timeout := ⟨some (.ofMillis 500), false⟩, mode := .available }
  have hheld : set.assign [candidate] = ⟨[candidate], [some 0, none]⟩ := by decide +kernel
  have hrun : waitForSlots set options
      [.ok [candidate], .error (.io "members"), .error (.decode "members")] =
        some ⟨3, .ok ⟨[some candidate, none], true⟩⟩ := by
    simp only [waitForSlots, Watch.run, Watch.runFrom, Watch.step, Watch.pass, watchSlots, hheld]
    rfl
  obtain ⟨n, hn, hdecides, hbefore⟩ := ((waitForSlots_eq_some_iff _ _ _).1 _ _).1 hrun
  obtain rfl : n = 2 := (Nat.succ.inj hn).symm
  exact ⟨set, candidate, options, hrun, hdecides, hbefore⟩

end SlotQuery
