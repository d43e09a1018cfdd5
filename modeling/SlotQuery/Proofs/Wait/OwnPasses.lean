import Mathlib.Data.List.Induction
import SlotQuery.Proofs.Wait.Passes
import SlotQuery.Wait.Own

/-!
# How a wait for own addresses ends

Whether a record holds all requested addresses and how many of them it lacks are found out in two ways:
the first one trims an address before it compares it, the second one leaves that to the comparison.
Both come down to whether the record holds one requested address (`Address.holdsAll_eq_all`,
`Address.missing_eq_countP`), so a record that does not do lacks at least one. `Decides` says which
passes decide a wait, and with what. Main statement: `waitForOwn_eq_some_iff`, the wait ends with the
first pass that decides.
-/

namespace SlotQuery

open Text

/-! ## What a record holds -/

namespace Address

variable {assigned requested : List String} {version : IpVersion}

/-- The addresses that are missing are those that are not held. -/
theorem missing_eq_countP (assigned requested : List String) (version : IpVersion) :
    missing assigned requested =
      requested.countP fun wanted => !holdsAll assigned [wanted] version := by
  simp only [missing, holdsAll_singleton]

/-- Where not all addresses are held, one of them is missing. -/
theorem one_le_countP_of_holdsAll (hne : requested ≠ [])
    (h : holdsAll assigned requested version = false) :
    1 ≤ requested.countP fun wanted => !holdsAll assigned [wanted] version := by
  rw [holdsAll_eq_all hne, List.all_eq_false] at h
  obtain ⟨wanted, hmem, hlacks⟩ := h
  apply List.countP_pos_iff.2
  exact ⟨wanted, hmem, by simpa using hlacks⟩

end Address

variable {requested : List String} {version : IpVersion} {options : WaitOptions}
  {fetched : List (Except FleetError (Option MemberRecord))} {n pending : Nat}

namespace OwnWait

/-- The address that the last record seen gives, empty when none was seen. -/
def lastAddress (version : IpVersion) (fetched : List (Except FleetError (Option MemberRecord))) :
    String :=
  match (fetched.filterMap fun f => f.toOption.join).getLast? with
  | some member => Address.select member.ipAssignments version
  | none => ""

/-- The pass leaves the wait open, with so many addresses pending: its record does not do, there is no
record, or the fetch failed and may succeed later. -/
inductive Open (requested : List String) (version : IpVersion)
    (fetched : List (Except FleetError (Option MemberRecord))) (n : Nat) : Nat → Prop where
  /-- The record lacks requested addresses. -/
  | lacking {member : MemberRecord} : fetched[n]? = some (.ok (some member)) → requested ≠ [] →
      Address.holdsAll member.ipAssignments requested version = false →
      Open requested version fetched n (requested.countP fun wanted =>
        !Address.holdsAll member.ipAssignments [wanted] version)
  /-- Nothing is requested, and the record has no address of the version. -/
  | bare {member : MemberRecord} : fetched[n]? = some (.ok (some member)) → requested = [] →
      Address.holdsAll member.ipAssignments requested version = false →
      Open requested version fetched n (max 1 requested.length)
  | absent : fetched[n]? = some (.ok none) → Open requested version fetched n (max 1 requested.length)
  | failure {e : FleetError} : fetched[n]? = some (.error e) → e.isTransient = true →
      Open requested version fetched n (max 1 requested.length)

/-- The pass decides the wait. -/
inductive Decides (requested : List String) (version : IpVersion) (options : WaitOptions)
    (fetched : List (Except FleetError (Option MemberRecord))) (n : Nat) :
    Except FleetError (Outcome String) → Prop where
  /-- The record holds the requested addresses, whatever the limit. -/
  | held {member : MemberRecord} : fetched[n]? = some (.ok (some member)) →
      Address.holdsAll member.ipAssignments requested version = true →
      Decides requested version options fetched n
        (.ok ⟨Address.select member.ipAssignments version, false⟩)
  /-- The failure is final. -/
  | failed {e : FleetError} : fetched[n]? = some (.error e) → e.isTransient = false →
      Decides requested version options fetched n (.error e)
  /-- Time runs out, and that is an error. -/
  | fatal {pending : Nat} {limit : Duration} : Open requested version fetched n pending →
      options.timeout.limit = some limit → limit.nanos < n * options.interval.nanos →
      options.timeout.fatal = true →
      Decides requested version options fetched n (.error (.timeout (options.interval.times n) pending))
  /-- Time runs out, which does no harm. -/
  | lenient {pending : Nat} {limit : Duration} : Open requested version fetched n pending →
      options.timeout.limit = some limit → limit.nanos < n * options.interval.nanos →
      options.timeout.fatal = false →
      Decides requested version options fetched n
        (.ok ⟨lastAddress version (fetched.take (n + 1)), true⟩)

/-! ## What a pass knows -/

theorem pending_bounds (h : Open requested version fetched n pending) :
    1 ≤ pending ∧ pending ≤ max 1 requested.length := by
  cases h with
  | lacking _ hne hlacks =>
    have hlow := Address.one_le_countP_of_holdsAll hne hlacks
    exact ⟨hlow, Nat.le_trans List.countP_le_length (Nat.le_max_right _ _)⟩
  | bare | absent | failure => exact ⟨Nat.le_max_left _ _, Nat.le_refl _⟩

theorem stateAfter_watchOwn :
    (watchOwn requested version).stateAfter "" fetched = lastAddress version fetched := by
  induction fetched using List.reverseRecOn with
  | nil => rfl
  | append_singleton fetched f ih =>
    rw [Watch.stateAfter] at ih ⊢
    rw [List.foldl_append, List.foldl_cons, List.foldl_nil, ih]
    cases f with
    | ok found =>
      cases found with
      | some member => simp [Watch.pass, watchOwn, lastAddress, Except.map, Except.toOption]
      | none => simp [Watch.pass, watchOwn, lastAddress, Except.map, Except.toOption]
    | error e =>
      cases he : e.isTransient <;>
        simp [Watch.pass, watchOwn, lastAddress, he, Except.map, Except.toOption]

/-- A record as a pass looks at it, whatever was known before. -/
theorem pass_record (address : String) (member : MemberRecord) :
    (watchOwn requested version).pass address (.ok (some member)) =
      .ok ⟨Address.select member.ipAssignments version,
        Address.holdsAll member.ipAssignments requested version,
        if requested.isEmpty then 1 else requested.countP fun wanted =>
          !Address.holdsAll member.ipAssignments [wanted] version⟩ := by
  rw [← Address.missing_eq_countP]
  rfl

/-- A pass leaves the wait open when it looks at something and does not finish. -/
theorem open_iff {address : String} :
    Open requested version fetched n pending ↔
      ∃ f p, fetched[n]? = some f ∧ (watchOwn requested version).pass address f = .ok p ∧
        p.finished = false ∧ p.pending = pending := by
  constructor
  · intro h
    cases h with
    | lacking hf hne hlacks =>
      refine ⟨_, _, hf, pass_record address _, hlacks, ?_⟩
      simp [hne]
    | bare hf hnil hlacks =>
      refine ⟨_, _, hf, pass_record address _, hlacks, ?_⟩
      simp [hnil]
    | absent hf => exact ⟨_, _, hf, rfl, rfl, rfl⟩
    | failure hf htransient =>
      exact ⟨_, _, hf, Watch.pass_error_eq_ok_iff.2 ⟨htransient, rfl⟩, rfl, rfl⟩
  · rintro ⟨f, p, hf, hp, hopen, rfl⟩
    cases f with
    | ok found =>
      cases found with
      | none =>
        cases hp
        exact .absent hf
      | some member =>
        rw [pass_record] at hp
        cases hp
        by_cases hnil : requested = []
        · have hbare := Open.bare hf hnil hopen
          simpa [hnil] using hbare
        · have hlacking := Open.lacking hf hnil hopen
          simpa [hnil] using hlacking
    | error e =>
      obtain ⟨htransient, rfl⟩ := Watch.pass_error_eq_ok_iff.1 hp
      exact .failure hf htransient

/-- A pass finishes the wait only over a record that holds the requested addresses. -/
theorem exists_record_of_finished {address : String} {f : Except FleetError (Option MemberRecord)}
    {p : Pass String} (hp : (watchOwn requested version).pass address f = .ok p)
    (hfinished : p.finished = true) :
    ∃ member, f = .ok (some member) ∧
      Address.holdsAll member.ipAssignments requested version = true ∧
      p.state = Address.select member.ipAssignments version := by
  cases f with
  | ok found =>
    cases found with
    | none =>
      cases hp
      cases hfinished
    | some member =>
      rw [pass_record] at hp
      cases hp
      exact ⟨member, rfl, hfinished, rfl⟩
  | error e =>
    obtain ⟨-, rfl⟩ := Watch.pass_error_eq_ok_iff.1 hp
    cases hfinished

/-! ## The deciding pass -/

theorem verdict?_watchOwn_iff {result : Except FleetError (Outcome String)} :
    (watchOwn requested version).verdict? options "" fetched n = some (.ended result) ↔
      Decides requested version options fetched n result := by
  rw [Watch.verdict?_eq_ended_iff_follows]
  constructor
  · rintro ⟨f, hf, hfollows⟩
    cases hfollows with
    | failed hp =>
      obtain ⟨rfl, hfinal⟩ := Watch.pass_eq_error_iff.1 hp
      exact .failed hf hfinal
    | finished hp hfinished =>
      obtain ⟨member, rfl, hholds, hstate⟩ := exists_record_of_finished hp hfinished
      rw [hstate]
      exact .held hf hholds
    | @lapsed p hp hunfinished hexpired =>
      obtain ⟨limit, hlimit, hlong⟩ := Timeout.expired_iff.1 hexpired
      have hopen : Open requested version fetched n p.pending :=
        open_iff.2 ⟨f, p, hf, hp, hunfinished, rfl⟩
      have hstate : p.state = lastAddress version (fetched.take (n + 1)) := by
        rw [← Watch.stateAfter_take_succ hf hp, stateAfter_watchOwn]
      cases hfatal : options.timeout.fatal with
      | true =>
        rw [Watch.lapse_of_fatal hfatal]
        exact .fatal hopen hlimit hlong hfatal
      | false =>
        rw [Watch.lapse_of_lenient hfatal, hstate]
        exact .lenient hopen hlimit hlong hfatal
  · have hlapsed {pending : Nat} {limit : Duration} (hopen : Open requested version fetched n pending)
        (hlimit : options.timeout.limit = some limit)
        (hlong : limit.nanos < n * options.interval.nanos) :
        ∃ f, fetched[n]? = some f ∧ Watch.Follows (watchOwn requested version) options.timeout
          (options.interval.times n)
          ((watchOwn requested version).stateAfter "" (fetched.take n)) f
          (.ended (Watch.lapse options.timeout (options.interval.times n)
            ⟨lastAddress version (fetched.take (n + 1)), false, pending⟩)) := by
      obtain ⟨f, p, hf, hp, hunfinished, rfl⟩ := open_iff.1 hopen
      have hexpired := Timeout.expired_iff.2 ⟨limit, hlimit, hlong⟩
      rw [← @stateAfter_watchOwn requested, Watch.stateAfter_take_succ hf hp, ← hunfinished]
      exact ⟨f, hf, .lapsed hp hunfinished hexpired⟩
    intro h
    cases h with
    | held hf hholds => exact ⟨_, hf, .finished (pass_record _ _) hholds⟩
    | failed hf hfinal => exact ⟨_, hf, .failed (Watch.pass_eq_error_iff.2 ⟨rfl, hfinal⟩)⟩
    | fatal hopen hlimit hlong hfatal =>
      have h := hlapsed hopen hlimit hlong
      rwa [Watch.lapse_of_fatal hfatal] at h
    | lenient hopen hlimit hlong hlenient =>
      have h := hlapsed hopen hlimit hlong
      rwa [Watch.lapse_of_lenient hlenient] at h

end OwnWait

open OwnWait

/-- **How a wait for own addresses ends.** It ends with the first pass that decides it, and goes on
beyond what is fetched if there is none. A pass that leaves it open has at least one address pending,
and no more than are requested unless that is none. -/
theorem waitForOwn_eq_some_iff (requested : List String) (version : IpVersion) (options : WaitOptions)
    (fetched : List (Except FleetError (Option MemberRecord))) :
    (∀ passes result, waitForOwn requested version options fetched = some ⟨passes, result⟩ ↔
      ∃ n, passes = n + 1 ∧ Decides requested version options fetched n result ∧
        ∀ m < n, ∀ r, ¬ Decides requested version options fetched m r) ∧
    (waitForOwn requested version options fetched = none ↔
      ∀ n r, ¬ Decides requested version options fetched n r) ∧
    (∀ n pending, Open requested version fetched n pending →
      1 ≤ pending ∧ pending ≤ max 1 requested.length) := by
  refine ⟨fun passes result => ?_, ?_, fun n pending hopen => pending_bounds hopen⟩
  · simp only [waitForOwn, Watch.run_eq_some_iff, ne_eq, verdict?_watchOwn_iff]
  · simp only [waitForOwn, Watch.run_eq_none_iff, ne_eq, verdict?_watchOwn_iff]

/-- The record holds one of two requested addresses, which leaves one pending, and then it is gone. The
limit lies between the second pass and the third one, which ends the wait with the address of that
record. -/
theorem waitForOwn_record_gone :
    ∃ (member : MemberRecord) (options : WaitOptions),
      let requested := ["10.0.0.1", "FD00::1"]
      let fetched := [.ok (some member), .ok none, .error (.io "members")]
      member.ipAssignments = [" 10.0.0.1/24"] ∧
      waitForOwn requested .v4 options fetched = some ⟨3, .ok ⟨"10.0.0.1", true⟩⟩ ∧
      Decides requested .v4 options fetched 2 (.ok ⟨"10.0.0.1", true⟩) ∧
      (∀ m < 2, ∀ r, ¬ Decides requested .v4 options fetched m r) ∧
      Open requested .v4 fetched 0 1 ∧ 1 ≤ 1 ∧ 1 ≤ max 1 requested.length := by
  let member : MemberRecord :=
    { nodeId := none, name := none, description := none, clock := none, lastOnline := none
      config := some ⟨none, some [" 10.0.0.1/24"], none, none, none⟩ }
  let options : WaitOptions :=
    { interval := .ofMillis 400, timeout := ⟨some (.ofMillis 500), false⟩ }
  have hlacks : Address.holdsAll member.ipAssignments ["10.0.0.1", "FD00::1"] .v4 = false := by
    decide +kernel
  have hrun : waitForOwn ["10.0.0.1", "FD00::1"] .v4 options
      [.ok (some member), .ok none, .error (.io "members")] =
        some ⟨3, .ok ⟨"10.0.0.1", true⟩⟩ := by
    have haddress : Address.select member.ipAssignments .v4 = "10.0.0.1" := by decide +kernel
    simp only [waitForOwn, Watch.run, Watch.runFrom, Watch.step, pass_record, hlacks, haddress]
    rfl
  obtain ⟨hended, -, hbounds⟩ := waitForOwn_eq_some_iff ["10.0.0.1", "FD00::1"] .v4 options
    [.ok (some member), .ok none, .error (.io "members")]
  obtain ⟨n, hn, hdecides, hbefore⟩ := (hended _ _).1 hrun
  obtain rfl : n = 2 := (Nat.succ.inj hn).symm
  have hopen : Open ["10.0.0.1", "FD00::1"] .v4
      [.ok (some member), .ok none, .error (.io "members")] 0 1 := by
    have hcount : (["10.0.0.1", "FD00::1"].countP fun wanted =>
        !Address.holdsAll member.ipAssignments [wanted] .v4) = 1 := by decide +kernel
    rw [← hcount]
    exact .lacking rfl (by decide) hlacks
  exact ⟨member, options, rfl, hrun, hdecides, hbefore, hopen, hbounds 0 1 hopen⟩

end SlotQuery
