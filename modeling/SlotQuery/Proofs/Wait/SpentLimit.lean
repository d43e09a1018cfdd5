import SlotQuery.Proofs.Wait.Passes
import SlotQuery.Wait.Phases

/-!
# A limit spent in steps

Time spent in two steps leaves what the same time leaves when it is spent at once (`remaining_remaining`), and
what is left runs out when the whole limit does. There is one exception, since nothing runs out before any time
is spent (`expired_zero`): what a step beyond the limit leaves has not run out yet (`expired_remaining_iff`). In
a wait in two phases this is why the first pass of the second phase never runs out of time
(`WaitPlan.expired_ownOptions_iff`). Main statement: `Timeout.remaining_in_steps`.
-/

namespace SlotQuery

namespace Timeout

variable {t : Timeout} {a b limit : Duration}

/-! ## What is left -/

/-- No limit stays none. -/
theorem limit_remaining_eq_none_iff : (t.remaining a).limit = none ↔ t.limit = none :=
  Option.map_eq_none_iff

theorem limit_remaining (h : t.limit = some limit) : (t.remaining a).limit = some (limit.minus a) := by
  rw [remaining, h, Option.map_some]

/-- What is left after two spans is what is left after both at once. -/
theorem remaining_remaining (t : Timeout) (a b : Duration) :
    (t.remaining a).remaining b = t.remaining (a.plus b) := by
  obtain ⟨limit, fatal⟩ := t
  cases limit with
  | none => rfl
  | some limit => simp only [remaining, Option.map_some, Duration.minus_minus]

/-! ## What has run out -/

theorem expired_of_unlimited (h : t.limit = none) : t.expired a = false := by
  rw [expired, h, Option.any_none]

/-- A limit is exceeded only by more than itself. -/
theorem expired_iff_of_limit (h : t.limit = some limit) :
    t.expired a = true ↔ limit.nanos < a.nanos := by
  rw [expired, h, Option.any_some, Duration.longerThan, decide_eq_true_iff]

/-- Not even a limit of zero has run out before any time is spent. -/
theorem expired_zero (t : Timeout) : t.expired .zero = false := by
  apply Bool.eq_false_iff.2
  intro hspent
  obtain ⟨limit, -, hlong⟩ := expired_iff.1 hspent
  exact Nat.not_lt_zero _ hlong

/-- What is left runs out when the whole limit does; what is left of a limit that has run out takes some
more time to. -/
theorem expired_remaining_iff :
    (t.remaining a).expired b = true ↔
      t.expired (a.plus b) = true ∧ (t.expired a = true → 0 < b.nanos) := by
  cases hlimit : t.limit with
  | none =>
    have hleft : (t.remaining a).expired b = false :=
      expired_of_unlimited (limit_remaining_eq_none_iff.2 hlimit)
    simp only [hleft, expired_of_unlimited hlimit, Bool.false_eq_true, false_and]
  | some limit =>
    rw [expired_iff_of_limit (limit_remaining hlimit), expired_iff_of_limit hlimit,
      expired_iff_of_limit hlimit]
    show limit.nanos - a.nanos < b.nanos ↔
      limit.nanos < a.nanos + b.nanos ∧ (limit.nanos < a.nanos → 0 < b.nanos)
    omega

theorem expired_remaining (h : t.expired a = true → 0 < b.nanos) :
    (t.remaining a).expired b = t.expired (a.plus b) := by
  apply Bool.eq_iff_iff.2
  rw [expired_remaining_iff]
  exact and_iff_left h

/-- **A limit spent in steps is the limit spent at once.** Two steps leave what both of them together leave; no
step changes whether running out of time is an error and whether there is a limit. After the first step, the
second one runs out of time exactly where both of them together do, unless the first one goes beyond the limit
and the second one takes no time: then only both of them together have run out. -/
theorem remaining_in_steps (t : Timeout) (a b : Duration) :
    (t.remaining a).remaining b = t.remaining (a.plus b) ∧
    (t.remaining a).fatal = t.fatal ∧
    ((t.remaining a).limit = none ↔ t.limit = none) ∧
    (t.limit = none ∨ (∃ limit, t.limit = some limit ∧ a.nanos ≤ limit.nanos) ∨ 0 < b.nanos →
      (t.remaining a).expired b = t.expired (a.plus b)) ∧
    (∀ limit, t.limit = some limit → limit.nanos < a.nanos → b = .zero →
      (t.remaining a).expired b = false ∧ t.expired (a.plus b) = true) := by
  refine ⟨remaining_remaining t a b, rfl, limit_remaining_eq_none_iff, ?_, ?_⟩
  · intro h
    apply expired_remaining
    intro hspent
    rcases h with hnone | ⟨limit, hlimit, hle⟩ | hpos
    · rw [expired_of_unlimited hnone] at hspent
      cases hspent
    · have hlong : limit.nanos < a.nanos := (expired_iff_of_limit hlimit).1 hspent
      omega
    · exact hpos
  · rintro limit hlimit hlong rfl
    rw [Duration.plus_zero]
    exact ⟨expired_zero _, (expired_iff_of_limit hlimit).2 hlong⟩

/-- A limit of ten seconds: four of them are spent and nothing more, then twelve seconds and one nanosecond, then
twelve seconds and nothing more. -/
theorem remaining_in_steps_beyond_limit :
    let t : Timeout := ⟨some (.ofSecs 10), false⟩
    (Duration.ofSecs 4).nanos ≤ (Duration.ofSecs 10).nanos ∧
      (t.remaining (.ofSecs 4)).expired .zero = t.expired ((Duration.ofSecs 4).plus .zero) ∧
    0 < (⟨1⟩ : Duration).nanos ∧
      (t.remaining (.ofSecs 12)).expired ⟨1⟩ = t.expired ((Duration.ofSecs 12).plus ⟨1⟩) ∧
    (Duration.ofSecs 10).nanos < (Duration.ofSecs 12).nanos ∧
      (t.remaining (.ofSecs 12)).expired .zero = false ∧
      t.expired ((Duration.ofSecs 12).plus .zero) = true := by
  intro t
  have hwithin : (Duration.ofSecs 4).nanos ≤ (Duration.ofSecs 10).nanos := by decide
  have hbeyond : (Duration.ofSecs 10).nanos < (Duration.ofSecs 12).nanos := by decide
  obtain ⟨-, -, -, hfour, -⟩ := remaining_in_steps t (.ofSecs 4) .zero
  obtain ⟨-, -, -, hon, -⟩ := remaining_in_steps t (.ofSecs 12) ⟨1⟩
  obtain ⟨-, -, -, -, hstop⟩ := remaining_in_steps t (.ofSecs 12) .zero
  exact ⟨hwithin, hfour (.inr (.inl ⟨_, rfl, hwithin⟩)), Nat.zero_lt_one, hon (.inr (.inr Nat.zero_lt_one)),
    hbeyond, hstop _ rfl hbeyond rfl⟩

end Timeout

/-! ## Two phases -/

/-- A pass of the second phase is beyond what is left exactly when both phases together are beyond the limit,
unless the first one alone is and the second one has not slept yet. -/
theorem WaitPlan.expired_ownOptions_iff (plan : WaitPlan) (n m : Nat) :
    (plan.ownOptions (plan.options.interval.times n)).timeout.expired
        (plan.options.interval.times m) = true ↔
      plan.options.timeout.expired (plan.options.interval.times (n + m)) = true ∧
        (plan.options.timeout.expired (plan.options.interval.times n) = true →
          0 < m * plan.options.interval.nanos) := by
  rw [← Duration.times_plus_times]
  exact Timeout.expired_remaining_iff

end SlotQuery
