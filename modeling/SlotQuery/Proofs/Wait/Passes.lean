import Mathlib.Data.Nat.Find
import SlotQuery.Wait.Polling

/-!
# The pass that ends a wait

What one pass makes of what it fetched (`step_eq_iff`), what is known before it (`stateAfter`), and
from both what a whole wait ends with: the verdict of the first pass that is not to go on
(`run_eq_some_iff`). With a limit and some time between passes there is such a pass
(`run_passes_le`).
-/

namespace SlotQuery

theorem Timeout.expired_iff {t : Timeout} {elapsed : Duration} :
    t.expired elapsed = true ↔ ∃ limit, t.limit = some limit ∧ limit.nanos < elapsed.nanos := by
  simp only [expired, Option.any_eq_true, Duration.longerThan, decide_eq_true_eq]

theorem take_succ_of_getElem? {α : Type} {as : List α} {a : α} {n : Nat} (h : as[n]? = some a) :
    as.take (n + 1) = as.take n ++ [a] := by
  rw [List.take_add_one, h, Option.toList_some]

namespace Watch

variable {σ ρ : Type} {w : Watch σ ρ} {options : WaitOptions} {timeout : Timeout} {elapsed : Duration}
  {state : σ} {f : Except FleetError ρ} {fetched : List (Except FleetError ρ)}

/-! ## One pass -/

/-- Only a failure that is final makes a pass fail. -/
theorem pass_eq_error_iff {e : FleetError} :
    w.pass state f = .error e ↔ f = .error e ∧ e.isTransient = false := by
  cases f with
  | ok r => simp [pass]
  | error e' =>
    cases he : e'.isTransient
    · simp only [pass, he, Bool.false_eq_true, if_false, Except.error.injEq]
      exact ⟨fun h => ⟨h, h ▸ he⟩, And.left⟩
    · simp only [pass, he, if_true, reduceCtorEq, false_iff, Except.error.injEq, not_and]
      rintro rfl
      simp [he]

/-- A pass over a failure that may pass looks at nothing. -/
theorem pass_error_eq_ok_iff {e : FleetError} {p : Pass σ} :
    w.pass state (.error e) = .ok p ↔ e.isTransient = true ∧ p = w.idle state := by
  rw [pass]
  split
  · next htransient =>
    rw [Except.ok.injEq, eq_comm]
    exact (and_iff_right htransient).symm
  · next hfinal => simp [hfinal]

/-- What a wait ends with that runs out of time at this pass. -/
def lapse (timeout : Timeout) (elapsed : Duration) (p : Pass σ) : Except FleetError (Outcome σ) :=
  if timeout.fatal then .error (.timeout elapsed p.pending) else .ok ⟨p.state, true⟩

theorem lapse_of_fatal {p : Pass σ} (h : timeout.fatal = true) :
    lapse timeout elapsed p = .error (.timeout elapsed p.pending) := if_pos h

theorem lapse_of_lenient {p : Pass σ} (h : timeout.fatal = false) :
    lapse timeout elapsed p = .ok ⟨p.state, true⟩ := if_neg (Bool.eq_false_iff.1 h)

/-- All that may follow a pass. -/
inductive Follows (w : Watch σ ρ) (timeout : Timeout) (elapsed : Duration) (state : σ)
    (f : Except FleetError ρ) : Verdict σ → Prop where
  | failed {e : FleetError} : w.pass state f = .error e →
      Follows w timeout elapsed state f (.ended (.error e))
  | finished {p : Pass σ} : w.pass state f = .ok p → p.finished = true →
      Follows w timeout elapsed state f (.ended (.ok ⟨p.state, false⟩))
  | lapsed {p : Pass σ} : w.pass state f = .ok p → p.finished = false →
      timeout.expired elapsed = true →
      Follows w timeout elapsed state f (.ended (lapse timeout elapsed p))
  | again {p : Pass σ} : w.pass state f = .ok p → p.finished = false →
      timeout.expired elapsed = false → Follows w timeout elapsed state f (.again p.state)

theorem follows_step : Follows w timeout elapsed state f (w.step timeout elapsed state f) := by
  unfold step
  split
  · next e hp => exact .failed hp
  · next p hp =>
    split
    · next hfinished => exact .finished hp hfinished
    · next hfinished =>
      have hopen : p.finished = false := Bool.eq_false_iff.2 hfinished
      split
      · next hexpired =>
        have h := Follows.lapsed hp hopen hexpired
        unfold lapse at h
        split at h
        · next hfatal => rwa [if_pos hfatal]
        · next hfatal => rwa [if_neg hfatal]
      · next hexpired => exact .again hp hopen (Bool.eq_false_iff.2 hexpired)

theorem step_eq_iff {v : Verdict σ} :
    w.step timeout elapsed state f = v ↔ Follows w timeout elapsed state f v := by
  constructor
  · rintro rfl
    exact follows_step
  · intro h
    cases h with
    | failed hp => simp only [step, hp]
    | finished hp hfinished => simp only [step, hp, hfinished, if_true]
    | lapsed hp hopen hexpired =>
      simp only [step, hp, hopen, hexpired, lapse, Bool.false_eq_true, if_false, if_true]
      split <;> rfl
    | again hp hopen hexpired => simp only [step, hp, hopen, hexpired, Bool.false_eq_true, if_false]

/-- A wait that goes on has looked at something, and knows what it saw. -/
theorem pass_of_step_eq_again {state' : σ} (h : w.step timeout elapsed state f = .again state') :
    ∃ p, w.pass state f = .ok p ∧ p.state = state' := by
  cases step_eq_iff.1 h with
  | again hp _ _ => exact ⟨_, hp, rfl⟩

/-- Beyond the limit no wait goes on. -/
theorem exists_step_eq_ended (h : timeout.expired elapsed = true) :
    ∃ r, w.step timeout elapsed state f = .ended r := by
  cases hstep : w.step timeout elapsed state f with
  | ended r => exact ⟨r, rfl⟩
  | again state' =>
    cases step_eq_iff.1 hstep with
    | again _ _ hexpired =>
      rw [h] at hexpired
      cases hexpired

/-! ## All passes -/

/-- What is known once passes have looked at what they fetched; a final failure tells nothing. -/
def stateAfter (w : Watch σ ρ) (start : σ) (fetched : List (Except FleetError ρ)) : σ :=
  fetched.foldl (fun state f => ((w.pass state f).map Pass.state).toOption.getD state) start

/-- A pass that tells something leaves it known. -/
theorem stateAfter_take_succ {start : σ} {k : Nat} {p : Pass σ} (hf : fetched[k]? = some f)
    (hp : w.pass (w.stateAfter start (fetched.take k)) f = .ok p) :
    w.stateAfter start (fetched.take (k + 1)) = p.state := by
  rw [stateAfter] at hp
  rw [take_succ_of_getElem? hf, stateAfter, List.foldl_append, List.foldl_cons, List.foldl_nil, hp]
  rfl

/-- What follows pass number `k` of a wait that goes on from its pass number `n`. -/
def verdictFrom? (w : Watch σ ρ) (options : WaitOptions) (n : Nat) (state : σ)
    (fetched : List (Except FleetError ρ)) (k : Nat) : Option (Verdict σ) :=
  fetched[k]?.map
    (w.step options.timeout (options.interval.times (n + k)) (w.stateAfter state (fetched.take k)))

theorem verdictFrom?_zero (n : Nat) :
    w.verdictFrom? options n state (f :: fetched) 0 =
      some (w.step options.timeout (options.interval.times n) state f) := rfl

theorem verdictFrom?_succ {n : Nat} {state' : σ}
    (h : w.step options.timeout (options.interval.times n) state f = .again state') (k : Nat) :
    w.verdictFrom? options n state (f :: fetched) (k + 1) =
      w.verdictFrom? options (n + 1) state' fetched k := by
  obtain ⟨p, hp, rfl⟩ := pass_of_step_eq_again h
  have hstate : w.stateAfter state (f :: fetched.take k) = w.stateAfter p.state (fetched.take k) := by
    simp only [stateAfter, List.foldl_cons, hp]
    rfl
  rw [verdictFrom?, verdictFrom?, List.getElem?_cons_succ, List.take_succ_cons, hstate,
    Nat.add_right_comm, Nat.add_assoc]

/-- The wait ends at its first pass with a verdict to end. -/
theorem runFrom_eq_some_iff {n passes : Nat} {result : Except FleetError (Outcome σ)} :
    w.runFrom options n state fetched = some ⟨passes, result⟩ ↔
      ∃ k, passes = n + k + 1 ∧ w.verdictFrom? options n state fetched k = some (.ended result) ∧
        ∀ m < k, ∀ r, w.verdictFrom? options n state fetched m ≠ some (.ended r) := by
  induction fetched generalizing n state with
  | nil => simp [runFrom, verdictFrom?]
  | cons f rest ih =>
    cases hstep : w.step options.timeout (options.interval.times n) state f with
    | ended r =>
      have hzero : w.verdictFrom? options n state (f :: rest) 0 = some (.ended r) := by
        rw [verdictFrom?_zero, hstep]
      have hrun : w.runFrom options n state (f :: rest) = some ⟨n + 1, r⟩ := by
        rw [runFrom, hstep]
      rw [hrun]
      constructor
      · rintro ⟨⟩
        exact ⟨0, rfl, hzero, fun m hm => absurd hm (Nat.not_lt_zero m)⟩
      · rintro ⟨k, rfl, hk, hbefore⟩
        cases k with
        | zero =>
          rw [hzero] at hk
          cases hk
          rfl
        | succ k => exact absurd hzero (hbefore 0 (Nat.succ_pos k) r)
    | again state' =>
      have hrun : w.runFrom options n state (f :: rest) = w.runFrom options (n + 1) state' rest := by
        rw [runFrom, hstep]
      have hzero (r : Except FleetError (Outcome σ)) :
          w.verdictFrom? options n state (f :: rest) 0 ≠ some (.ended r) := by
        rw [verdictFrom?_zero, hstep]
        simp
      rw [hrun, ih]
      constructor
      · rintro ⟨k, rfl, hk, hbefore⟩
        refine ⟨k + 1, by omega, (verdictFrom?_succ hstep k).trans hk, fun m hm r => ?_⟩
        cases m with
        | zero => exact hzero r
        | succ m =>
          rw [verdictFrom?_succ hstep]
          exact hbefore m (Nat.lt_of_succ_lt_succ hm) r
      · rintro ⟨k, rfl, hk, hbefore⟩
        cases k with
        | zero => exact absurd hk (hzero result)
        | succ k =>
          refine ⟨k, by omega, (verdictFrom?_succ hstep k).symm.trans hk, fun m hm r => ?_⟩
          rw [← verdictFrom?_succ hstep]
          exact hbefore (m + 1) (Nat.succ_lt_succ hm) r

/-- What follows pass number `k` of a wait. -/
def verdict? (w : Watch σ ρ) (options : WaitOptions) (start : σ)
    (fetched : List (Except FleetError ρ)) (k : Nat) : Option (Verdict σ) :=
  w.verdictFrom? options 0 start fetched k

theorem verdict?_eq (k : Nat) :
    w.verdict? options state fetched k =
      fetched[k]?.map (w.step options.timeout (options.interval.times k)
        (w.stateAfter state (fetched.take k))) := by
  rw [verdict?, verdictFrom?, Nat.zero_add]

/-- What a pass is to end with follows from what it fetched and from what was known before it. -/
theorem verdict?_eq_ended_iff_follows {start : σ} {k : Nat}
    {result : Except FleetError (Outcome σ)} :
    w.verdict? options start fetched k = some (.ended result) ↔
      ∃ f, fetched[k]? = some f ∧ Follows w options.timeout (options.interval.times k)
        (w.stateAfter start (fetched.take k)) f (.ended result) := by
  simp only [verdict?_eq, Option.map_eq_some_iff, step_eq_iff]

theorem run_eq_some_iff {start : σ} {passes : Nat} {result : Except FleetError (Outcome σ)} :
    w.run options start fetched = some ⟨passes, result⟩ ↔
      ∃ k, passes = k + 1 ∧ w.verdict? options start fetched k = some (.ended result) ∧
        ∀ m < k, ∀ r, w.verdict? options start fetched m ≠ some (.ended r) := by
  simp only [run, runFrom_eq_some_iff, verdict?, Nat.zero_add]

/-- A wait with a pass that has a verdict to end ends there at the latest. -/
theorem exists_run_eq_some {start : σ} {k : Nat} {result : Except FleetError (Outcome σ)}
    (h : w.verdict? options start fetched k = some (.ended result)) :
    ∃ e, w.run options start fetched = some e ∧ e.passes ≤ k + 1 := by
  classical
  have hex : ∃ k r, w.verdict? options start fetched k = some (.ended r) := ⟨k, result, h⟩
  obtain ⟨r, hr⟩ := Nat.find_spec hex
  refine ⟨⟨Nat.find hex + 1, r⟩, run_eq_some_iff.2 ⟨_, rfl, hr, fun m hm r' hr' => ?_⟩, ?_⟩
  · exact Nat.find_min hex hm ⟨r', hr'⟩
  · exact Nat.succ_le_succ (Nat.find_min' hex ⟨result, h⟩)

theorem run_eq_none_iff {start : σ} :
    w.run options start fetched = none ↔
      ∀ k r, w.verdict? options start fetched k ≠ some (.ended r) := by
  constructor
  · intro hnone k r h
    obtain ⟨e, he, -⟩ := exists_run_eq_some h
    cases hnone.symm.trans he
  · intro h
    cases hrun : w.run options start fetched with
    | none => rfl
    | some e =>
      obtain ⟨k, -, hk, -⟩ := run_eq_some_iff.1 hrun
      exact absurd hk (h k e.result)

/-- What is fetched from a pass on does not matter before that pass. -/
theorem verdict?_take {start : σ} {k n : Nat} (h : k < n) :
    w.verdict? options start (fetched.take n) k = w.verdict? options start fetched k := by
  rw [verdict?_eq, verdict?_eq, List.getElem?_take_of_lt h, List.take_take,
    Nat.min_eq_left (Nat.le_of_lt h)]

/-- A pass that the wait comes to ends it if it has a verdict to end. -/
theorem run_eq_some_iff_of_reached {start : σ} {n : Nat} {result : Except FleetError (Outcome σ)}
    (h : w.run options start (fetched.take n) = none) :
    w.run options start fetched = some ⟨n + 1, result⟩ ↔
      w.verdict? options start fetched n = some (.ended result) := by
  rw [run_eq_some_iff]
  constructor
  · rintro ⟨k, hk, hverdict, -⟩
    obtain rfl : n = k := Nat.succ.inj hk
    exact hverdict
  · intro hverdict
    refine ⟨n, rfl, hverdict, fun m hm r hr => ?_⟩
    rw [← verdict?_take hm] at hr
    exact run_eq_none_iff.1 h m r hr

/-- A pass beyond the limit has a verdict to end. -/
theorem exists_verdict?_eq_ended {start : σ} {limit : Duration} {k : Nat}
    (hlimit : options.timeout.limit = some limit) (hk : k < fetched.length)
    (hlong : limit.nanos < k * options.interval.nanos) :
    ∃ r, w.verdict? options start fetched k = some (.ended r) := by
  have hexpired : options.timeout.expired (options.interval.times k) = true :=
    Timeout.expired_iff.2 ⟨limit, hlimit, hlong⟩
  obtain ⟨r, hr⟩ : ∃ r, w.step options.timeout (options.interval.times k)
      (w.stateAfter start (fetched.take k)) fetched[k] = .ended r := exists_step_eq_ended hexpired
  exact ⟨r, by rw [verdict?_eq, List.getElem?_eq_getElem hk, Option.map_some, hr]⟩

/-- With a limit and time between the passes the wait ends after the first pass beyond the limit. -/
theorem run_passes_le {start : σ} {limit : Duration} (hlimit : options.timeout.limit = some limit)
    (hinterval : 0 < options.interval.nanos)
    (hlen : limit.nanos / options.interval.nanos + 2 ≤ fetched.length) :
    ∃ e, w.run options start fetched = some e ∧
      e.passes ≤ limit.nanos / options.interval.nanos + 2 := by
  have hlong := Nat.lt_div_mul_add (a := limit.nanos) hinterval
  rw [← Nat.succ_mul] at hlong
  obtain ⟨r, hr⟩ : ∃ r, w.verdict? options start fetched
      (limit.nanos / options.interval.nanos + 1) = some (.ended r) :=
    exists_verdict?_eq_ended hlimit hlen hlong
  exact exists_run_eq_some hr

end Watch

end SlotQuery
