import SlotQuery.Fleet.Snapshot
import SlotQuery.Proofs.Wait.Passes
import SlotQuery.Wait.Phases

/-!
# Two phases, one limit

A phase that may fail only for a while sleeps through its limit and one interval at most, and lapses
only beyond its limit (`Watch.exists_run_within`). The second phase has what the first one left, and
nothing at all where the first one went beyond the limit, which it does by one interval at most. Main
statement: `WaitPlan.run_shares_limit`.
-/

namespace SlotQuery

/-! ## One phase -/

namespace Watch

variable {σ ρ : Type} {w : Watch σ ρ} {options : WaitOptions} {fetched : List (Except FleetError ρ)}
  {start : σ} {result : Except FleetError (Outcome σ)} {n : Nat}

/-- The wait ran out of time, whether that is an error or does no harm. -/
inductive Lapsed : Except FleetError (Outcome σ) → Prop where
  | fatal (elapsed : Duration) (pending : Nat) : Lapsed (.error (.timeout elapsed pending))
  | lenient {o : Outcome σ} : o.timedOut = true → Lapsed (.ok o)

/-- Without final failures only the last pass of a wait runs out of time, beyond the limit. -/
theorem expired_of_lapsed (htransient : ∀ e, .error e ∈ fetched → e.isTransient = true)
    (hrun : w.run options start fetched = some ⟨n + 1, result⟩) (hlapsed : Lapsed result) :
    options.timeout.expired (options.interval.times n) = true := by
  obtain ⟨k, hk, hverdict, -⟩ := run_eq_some_iff.1 hrun
  obtain rfl : n = k := Nat.succ.inj hk
  obtain ⟨f, hf, hfollows⟩ := verdict?_eq_ended_iff_follows.1 hverdict
  cases hfollows with
  | lapsed _ _ hexpired => exact hexpired
  | finished =>
    cases hlapsed with
    | lenient hlate => cases hlate
  | @failed e hpass =>
    obtain ⟨rfl, hfinal⟩ := pass_eq_error_iff.1 hpass
    have htransient' := htransient e (List.mem_of_getElem? hf)
    rw [hfinal] at htransient'
    cases htransient'

/-- With a limit and time between the passes, and without final failures, the wait ends. It sleeps for no
more than the limit and one interval, and runs out of time only beyond the limit. -/
theorem exists_run_within {limit : Duration} (hlimit : options.timeout.limit = some limit)
    (hinterval : 0 < options.interval.nanos)
    (htransient : ∀ e, .error e ∈ fetched → e.isTransient = true)
    (hlen : limit.nanos / options.interval.nanos + 2 ≤ fetched.length) :
    ∃ n result, w.run options start fetched = some ⟨n + 1, result⟩ ∧
      n * options.interval.nanos ≤ limit.nanos + options.interval.nanos ∧
      (Lapsed result → limit.nanos < n * options.interval.nanos) := by
  obtain ⟨⟨passes, result⟩, hrun, hpasses⟩ := @run_passes_le _ _ w _ _ start _ hlimit hinterval hlen
  obtain ⟨n, rfl, -⟩ := run_eq_some_iff.1 hrun
  refine ⟨n, result, hrun, ?_, fun hlapsed => ?_⟩
  · calc n * options.interval.nanos
        ≤ (limit.nanos / options.interval.nanos + 1) * options.interval.nanos :=
          Nat.mul_le_mul_right _ (Nat.le_of_succ_le_succ hpasses)
      _ = limit.nanos / options.interval.nanos * options.interval.nanos + options.interval.nanos :=
          Nat.succ_mul _ _
      _ ≤ limit.nanos + options.interval.nanos :=
          Nat.add_le_add_right (Nat.div_mul_le_self _ _) _
  · obtain ⟨limit', hlimit', hlong⟩ :=
      Timeout.expired_iff.1 (expired_of_lapsed htransient hrun hlapsed)
    obtain rfl : limit = limit' := Option.some.inj (hlimit.symm.trans hlimit')
    exact hlong

end Watch

/-! ## Both phases -/

namespace WaitPlan

/-- The time that the whole wait spends asleep, with an answer where `run` has one. -/
def slept (plan : WaitPlan) (slotsFetched : List (Except FleetError (List Attributes)))
    (ownFetched : List (Except FleetError (Option MemberRecord))) : Option Duration := do
  let first ← waitForSlots plan.set plan.options slotsFetched
  let elapsed := plan.options.interval.times (first.passes - 1)
  match first.result with
  | .error _ => return elapsed
  | .ok _ =>
    if !plan.hasOwn then return elapsed
    let second ← waitForOwn plan.requested plan.version (plan.ownOptions elapsed) ownFetched
    return plan.options.interval.times (first.passes - 1 + (second.passes - 1))

/-- Either phase ran out of time, whether that is an error or does no harm. -/
inductive Lapsed : Except FleetError WaitResult → Prop where
  | fatal (elapsed : Duration) (pending : Nat) : Lapsed (.error (.timeout elapsed pending))
  | lenient {r : WaitResult} : r.timedOut = true → Lapsed (.ok r)

section Phases

variable {plan : WaitPlan} {slotsFetched : List (Except FleetError (List Attributes))}
  (ownFetched : List (Except FleetError (Option MemberRecord))) {n m : Nat} {slots : Outcome Slots}

theorem run_of_failed {e : FleetError}
    (h : waitForSlots plan.set plan.options slotsFetched = some ⟨n + 1, .error e⟩) :
    plan.run slotsFetched ownFetched = some (.error e) ∧
      plan.slept slotsFetched ownFetched = some (plan.options.interval.times n) := by
  simp [run, slept, h]

theorem run_of_alone
    (h : waitForSlots plan.set plan.options slotsFetched = some ⟨n + 1, .ok slots⟩)
    (hown : plan.hasOwn = false) :
    plan.run slotsFetched ownFetched = some (.ok ⟨slots, none⟩) ∧
      plan.slept slotsFetched ownFetched = some (plan.options.interval.times n) := by
  simp [run, slept, h, hown]

theorem run_of_both {own : Except FleetError (Outcome String)}
    (h : waitForSlots plan.set plan.options slotsFetched = some ⟨n + 1, .ok slots⟩)
    (hown : plan.hasOwn = true)
    (h' : waitForOwn plan.requested plan.version
      (plan.ownOptions (plan.options.interval.times n)) ownFetched = some ⟨m + 1, own⟩) :
    plan.run slotsFetched ownFetched = some (own.map fun own => ⟨slots, some own⟩) ∧
      plan.slept slotsFetched ownFetched = some (plan.options.interval.times (n + m)) := by
  simp [run, slept, h, hown, h']

theorem lapsed_of_alone (h : Lapsed (.ok ⟨slots, none⟩)) : Watch.Lapsed (.ok slots) := by
  cases h with
  | lenient hlate =>
    rw [WaitResult.timedOut, Option.any_none, Bool.or_false] at hlate
    exact .lenient hlate

/-- What ran out of time is one of the phases. -/
theorem lapsed_of_both {own : Except FleetError (Outcome String)}
    (h : Lapsed (own.map fun own => ⟨slots, some own⟩)) :
    Watch.Lapsed (.ok slots) ∨ Watch.Lapsed own := by
  cases own with
  | error e =>
    cases h with
    | fatal elapsed pending => exact .inr (.fatal elapsed pending)
  | ok own =>
    cases h with
    | lenient hlate =>
      rw [WaitResult.timedOut, Option.any_some, Bool.or_eq_true] at hlate
      exact hlate.imp .lenient .lenient

end Phases

/-- **One limit for both phases.** With a limit and time between the passes, and with no failures but
those that may pass, a wait in two phases ends. It sleeps for no more than the limit and two intervals,
and runs out of time in either phase only when it has slept for longer than the limit. -/
theorem run_shares_limit (plan : WaitPlan) {limit : Duration}
    (hlimit : plan.options.timeout.limit = some limit) (hinterval : 0 < plan.options.interval.nanos)
    {slotsFetched : List (Except FleetError (List Attributes))}
    {ownFetched : List (Except FleetError (Option MemberRecord))}
    (hslots : ∀ e, .error e ∈ slotsFetched → e.isTransient = true)
    (hown : ∀ e, .error e ∈ ownFetched → e.isTransient = true)
    (hslotsLen : limit.nanos / plan.options.interval.nanos + 2 ≤ slotsFetched.length)
    (hownLen : limit.nanos / plan.options.interval.nanos + 2 ≤ ownFetched.length) :
    ∃ result slept, plan.run slotsFetched ownFetched = some result ∧
      plan.slept slotsFetched ownFetched = some slept ∧
      slept.nanos ≤ limit.nanos + 2 * plan.options.interval.nanos ∧
      (Lapsed result → limit.nanos < slept.nanos) := by
  obtain ⟨n, first, hfirst, hn, hlapsed⟩ :
      ∃ n result, waitForSlots plan.set plan.options slotsFetched = some ⟨n + 1, result⟩ ∧ _ :=
    Watch.exists_run_within hlimit hinterval hslots hslotsLen
  have hshort : (plan.options.interval.times n).nanos ≤
      limit.nanos + 2 * plan.options.interval.nanos := by
    show n * plan.options.interval.nanos ≤ _
    omega
  cases first with
  | error e =>
    obtain ⟨hrun, hslept⟩ := run_of_failed ownFetched hfirst
    refine ⟨_, _, hrun, hslept, hshort, fun h => ?_⟩
    cases h with
    | fatal elapsed pending => exact hlapsed (.fatal elapsed pending)
  | ok slots =>
    cases hphase : plan.hasOwn with
    | false =>
      obtain ⟨hrun, hslept⟩ := run_of_alone ownFetched hfirst hphase
      exact ⟨_, _, hrun, hslept, hshort, fun h => hlapsed (lapsed_of_alone h)⟩
    | true =>
      let elapsed := plan.options.interval.times n
      -- what is left of the limit, and it stays a limit when nothing is left
      have hrest : (plan.ownOptions elapsed).timeout.limit = some (limit.minus elapsed) := by
        simp [ownOptions, Timeout.remaining, hlimit]
      have hrestLen : (limit.minus elapsed).nanos / plan.options.interval.nanos + 2 ≤
          ownFetched.length :=
        Nat.le_trans (Nat.add_le_add_right (Nat.div_le_div_right (Nat.sub_le _ _)) 2) hownLen
      obtain ⟨m, own, hsecond, hm, hlapsed'⟩ :
          ∃ m result, waitForOwn plan.requested plan.version (plan.ownOptions elapsed) ownFetched =
            some ⟨m + 1, result⟩ ∧ _ :=
        Watch.exists_run_within hrest hinterval hown hrestLen
      obtain ⟨hrun, hslept⟩ := run_of_both ownFetched hfirst hphase hsecond
      have htotal : (plan.options.interval.times (n + m)).nanos =
          n * plan.options.interval.nanos + m * plan.options.interval.nanos := Nat.add_mul _ _ _
      have hleft : (limit.minus elapsed).nanos = limit.nanos - n * plan.options.interval.nanos := rfl
      have hsame : (plan.ownOptions elapsed).interval = plan.options.interval := rfl
      rw [hsame, hleft] at hm hlapsed'
      refine ⟨_, _, hrun, hslept, by omega, fun h => ?_⟩
      rcases lapsed_of_both h with h | h
      · have := hlapsed h
        omega
      · have := hlapsed' h
        omega

/-- The member file never appears. The first phase lapses at its third pass, one time unit beyond the
limit, and the second phase, with nothing left of the limit, at its second pass. -/
theorem run_shares_limit_missing_file :
    ∃ (plan : WaitPlan) (s : Snapshot) (slots : Outcome Slots) (own : Outcome String),
      let contents : List (Option String) := [none, none, none]
      plan.options.timeout.limit = some ⟨5⟩ ∧ plan.options.interval = ⟨3⟩ ∧
      plan.run (contents.map (s.pool 0)) (contents.map s.own) = some (.ok ⟨slots, some own⟩) ∧
      slots.timedOut = true ∧ own.timedOut = true ∧
      plan.slept (contents.map (s.pool 0)) (contents.map s.own) = some ⟨9⟩ ∧ 5 < 9 ∧ 9 ≤ 5 + 2 * 3 := by
  let plan : WaitPlan :=
    { set := ⟨[.condition ⟨"a", .equals, "1", _, rfl⟩]⟩
      options := { interval := ⟨3⟩, timeout := ⟨some ⟨5⟩, false⟩ }
      hasOwn := true
      requested := []
      version := .v4 }
  let s : Snapshot := ⟨"members", ⟨none, none, none⟩, { selfId := some "n" }⟩
  let contents : List (Option String) := [none, none, none]
  have hpools (e : FleetError) (he : .error e ∈ contents.map (s.pool 0)) : e.isTransient = true := by
    obtain ⟨content, -, hcontent⟩ := List.mem_map.1 he
    exact s.isTransient_of_pool hcontent
  have howns (e : FleetError) (he : .error e ∈ contents.map s.own) : e.isTransient = true := by
    obtain ⟨content, -, hcontent⟩ := List.mem_map.1 he
    exact s.isTransient_of_own hcontent
  obtain ⟨result, slept, hrun, hslept, hle, hlt⟩ :=
    run_shares_limit plan rfl (by decide) hpools howns (by decide) (by decide)
  have hresult : plan.run (contents.map (s.pool 0)) (contents.map s.own) =
      some (.ok ⟨⟨[none], true⟩, some ⟨"", true⟩⟩) := rfl
  have htotal : plan.slept (contents.map (s.pool 0)) (contents.map s.own) = some ⟨9⟩ := rfl
  cases hresult.symm.trans hrun
  cases htotal.symm.trans hslept
  exact ⟨plan, s, _, _, rfl, rfl, hresult, rfl, rfl, htotal, hlt (.lenient rfl), hle⟩

end WaitPlan

end SlotQuery
