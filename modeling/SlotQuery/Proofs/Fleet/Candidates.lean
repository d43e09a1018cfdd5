import Mathlib.Data.List.NodupEquivFin
import SlotQuery.Fleet.Filter

/-!
# Candidates and their members

Which members a filter accepts, its ages taken as plain integers (`accepts_iff`), and what their
attributes keep of them: no tag has the name of a base field (`attributes_get?`), so a candidate is
reported with the address for which the filter accepted its member. The candidates are accepted members, in
member order (`exists_place_of_candidates`). Main statement: `candidates_admitted`, they are all of them.
-/

namespace SlotQuery

/-! ## Accepted members -/

namespace ActiveFilter

variable {filter : ActiveFilter} {current : Int64} {member : MemberRecord}

/-- The member's last sign of life is longer ago than the filter allows, by the clock of its record or
else by the filter's time. A limit that does not lie below the end of the integers of 64 bits allows
everything. -/
def Stale (filter : ActiveFilter) (current : Int64) (member : MemberRecord) : Prop :=
  (filter.lastSeen.millis : Int) < int64Max ∧
    (filter.lastSeen.millis : Int) <
      (member.clock.getD (filter.time current)).toInt - (member.lastOnline.getD 0).toInt

/-- Keeping age and limit within 64 bits changes nothing: a limit is never negative, and an age that is
cut down to the greatest integer still exceeds every smaller limit. -/
theorem age_le_ageLimit_iff : filter.age current member ≤ filter.ageLimit ↔ ¬ filter.Stale current member := by
  have hmin : Int64.minValue.toInt = -9223372036854775808 := rfl
  have hmax : int64Max = 9223372036854775807 := rfl
  simp only [age, timeDifference, ageLimit, Stale, hmin, hmax]
  omega

/-- A filter accepts a member for four reasons taken together. -/
theorem accepts_iff : filter.accepts current member = true ↔
    (∀ id, filter.selfId = some id → member.nodeId ≠ some id) ∧ member.isAuthorized = true ∧
      ¬ filter.Stale current member ∧ Address.select member.ipAssignments filter.version ≠ "" := by
  have hself : (!(filter.selfId.isSome && member.nodeId == filter.selfId)) = true ↔
      ∀ id, filter.selfId = some id → member.nodeId ≠ some id := by
    cases filter.selfId <;> simp
  simp only [accepts, Bool.and_eq_true, hself, decide_eq_true_eq, age_le_ageLimit_iff, bne_iff_ne,
    ne_eq, and_assoc]

end ActiveFilter

/-! ## Attributes -/

namespace MemberRecord

variable {network : NetworkInfo} {version : IpVersion} {field : String}

theorem colon_notMem_baseFields : ∀ field ∈ baseFields, ':' ∉ field.toList := by decide

theorem tagField_notMem_baseFields (tag : String) : tagField tag ∉ baseFields := fun h =>
  colon_notMem_baseFields _ h (by simp [tagField])

theorem tagEnumField_notMem_baseFields (tag : String) : tagEnumField tag ∉ baseFields := fun h =>
  colon_notMem_baseFields _ h (by simp [tagEnumField])

/-- A tag is written under names of its own. -/
theorem addTag_get? (h : field ∈ baseFields) (a : Attributes) (tag : Int64 × TagValue) :
    (addTag network a tag).get? field = a.get? field := by
  have hvalue (name : String) : field ≠ tagField name := fun he =>
    tagField_notMem_baseFields name (he ▸ h)
  have hlabel (name : String) : field ≠ tagEnumField name := fun he =>
    tagEnumField_notMem_baseFields name (he ▸ h)
  unfold addTag
  split
  split
  · split
    · simp [hvalue]
    · split <;> simp [hvalue, hlabel]
  · rfl

theorem foldl_addTag_get? (h : field ∈ baseFields) (tags : List (Int64 × TagValue))
    (a : Attributes) : (tags.foldl (addTag network) a).get? field = a.get? field := by
  induction tags generalizing a with
  | nil => rfl
  | cons tag tags ih => rw [List.foldl_cons, ih, addTag_get? h]

/-- The tags change no base field. -/
theorem attributes_get? (h : field ∈ baseFields) (member : MemberRecord) :
    (member.attributes network version).get? field =
      (member.baseAttributes network version).get? field :=
  foldl_addTag_get? h member.tags _

/-- The address is the one that the version picks. -/
theorem attributes_address (member : MemberRecord) :
    (member.attributes network version).address = Address.select member.ipAssignments version := by
  rw [Attributes.address, attributes_get? (by decide)]
  simp [baseAttributes, TextMap.ofList]

end MemberRecord

/-! ## Pools -/

/-- A candidate is made of an accepted member, and the places of the candidates in the pool keep the
order of their members. -/
theorem ActiveFilter.exists_place_of_candidates (filter : ActiveFilter) (current : Int64)
    (members : List MemberRecord) (network : NetworkInfo) :
    ∃ place : Nat ↪o Nat, ∀ i a, (filter.candidates current members network)[i]? = some a →
      ∃ member, members[place i]? = some member ∧ filter.accepts current member = true ∧
        a = member.attributes network filter.version := by
  obtain ⟨place, hplace⟩ := List.sublist_iff_exists_orderEmbedding_getElem?_eq.1
    (List.filter_sublist : (members.filter (filter.accepts current)).Sublist members)
  refine ⟨place, fun i a ha => ?_⟩
  rw [candidates, List.getElem?_map, Option.map_eq_some_iff] at ha
  obtain ⟨member, hmember, rfl⟩ := ha
  exact ⟨member, hplace i ▸ hmember, (List.mem_filter.1 (List.mem_of_getElem? hmember)).2, rfl⟩

/-! ## Main statement -/

/-- The member may be a candidate at the time `now`. Its age is the difference of two integers without
bounds, and a limit that reaches the end of the integers of 64 bits is none. -/
structure ActiveFilter.Admits (filter : ActiveFilter) (now : Int64) (member : MemberRecord) : Prop where
  other : ∀ id, filter.selfId = some id → member.nodeId ≠ some id
  authorized : ∃ config, member.config = some config ∧ config.authorized = some true
  address_ne : Address.select member.ipAssignments filter.version ≠ ""
  fresh : (filter.lastSeen.millis : Int) < int64Max →
    (member.clock.getD now).toInt - (member.lastOnline.getD 0).toInt ≤ filter.lastSeen.millis

theorem MemberRecord.isAuthorized_iff {member : MemberRecord} : member.isAuthorized = true ↔
    ∃ config, member.config = some config ∧ config.authorized = some true := by
  cases hconfig : member.config with
  | none => simp [isAuthorized, hconfig]
  | some config => cases hauthorized : config.authorized <;> simp [isAuthorized, hconfig, hauthorized]

/-- At the time of the filter, the current one does not count. -/
theorem ActiveFilter.accepts_iff_admits {filter : ActiveFilter} {now current : Int64}
    {member : MemberRecord} (hnow : filter.now = some now) :
    filter.accepts current member = true ↔ filter.Admits now member := by
  have hfresh : ¬ filter.Stale current member ↔ ((filter.lastSeen.millis : Int) < int64Max →
      (member.clock.getD now).toInt - (member.lastOnline.getD 0).toInt ≤ filter.lastSeen.millis) := by
    rw [Stale, time, hnow, Option.getD_some, not_and, Int.not_lt]
  rw [accepts_iff, MemberRecord.isAuthorized_iff, hfresh]
  constructor
  · rintro ⟨hother, hauthorized, hfresh, haddress⟩
    exact ⟨hother, hauthorized, haddress, hfresh⟩
  · rintro ⟨hother, hauthorized, haddress, hfresh⟩
    exact ⟨hother, hauthorized, hfresh, haddress⟩

/-- **Active members.** A filter with a time accepts exactly the members that it admits at that time,
whatever the current time and those in their records: neither bound of the integers of 64 bits makes a
difference. Its
candidates are the members that it admits, all of them and in member order: no other run of members it
admits that stand in the list in this order is not part of theirs. -/
theorem ActiveFilter.candidates_admitted {filter : ActiveFilter} {now : Int64}
    (hnow : filter.now = some now) :
    (∀ current member, filter.accepts current member = true ↔ filter.Admits now member) ∧
    ∀ (current : Int64) (members : List MemberRecord) (network : NetworkInfo),
      ∃ kept : List MemberRecord,
        filter.candidates current members network = kept.map (·.attributes network filter.version) ∧
        kept.Sublist members ∧ (∀ member ∈ kept, filter.Admits now member) ∧
        ∀ others : List MemberRecord, others.Sublist members →
          (∀ member ∈ others, filter.Admits now member) → others.Sublist kept := by
  have haccepts : ∀ current member, filter.accepts current member = true ↔ filter.Admits now member :=
    fun current member => accepts_iff_admits hnow
  refine ⟨haccepts, fun current members network => ?_⟩
  refine ⟨members.filter (filter.accepts current), rfl, List.filter_sublist, fun member hmember => ?_,
    fun others hothers hadmits => ?_⟩
  · exact (haccepts current member).1 (List.mem_filter.1 hmember).2
  · -- all of the others pass the filter, so they are a part of what passes it
    have hall : others.filter (filter.accepts current) = others :=
      List.filter_eq_self.2 fun member hmember => (haccepts current member).2 (hadmits member hmember)
    exact hall ▸ hothers.filter (filter.accepts current)

/-- The widest age there is, and a limit of the greatest integer of 64 bits, which is none: the member is a
candidate. A millisecond less, and it is not. -/
theorem ActiveFilter.candidates_admitted_widest_age :
    ∃ member : MemberRecord, member.clock = some Int64.maxValue ∧
      member.lastOnline = some Int64.minValue ∧
      (∃ filter : ActiveFilter, filter.now = some 0 ∧ filter.lastSeen.millis = 9223372036854775807 ∧
        ∀ current, filter.accepts current member = true) ∧
      ∃ filter : ActiveFilter, filter.now = some 0 ∧ filter.lastSeen.millis = 9223372036854775806 ∧
        ∀ current, filter.accepts current member = false := by
  let config : MemberConfig := ⟨some true, some ["10.0.0.1/24"], none, none, none⟩
  let member : MemberRecord :=
    ⟨none, none, none, some Int64.maxValue, some Int64.minValue, some config⟩
  let patient : ActiveFilter := { lastSeen := .ofMillis 9223372036854775807, now := some 0 }
  let strict : ActiveFilter := { lastSeen := .ofMillis 9223372036854775806, now := some 0 }
  have haddress : Address.select member.ipAssignments .v4 ≠ "" := by decide +kernel
  obtain ⟨hpatient, -⟩ := @ActiveFilter.candidates_admitted patient 0 rfl
  obtain ⟨hstrict, -⟩ := @ActiveFilter.candidates_admitted strict 0 rfl
  refine ⟨member, rfl, rfl, ⟨patient, rfl, by decide, fun current => (hpatient current member).2 ?_⟩,
    strict, rfl, by decide, fun current => ?_⟩
  · exact ⟨by simp [patient], ⟨config, rfl, rfl⟩, haddress, by decide⟩
  · rw [← Bool.not_eq_true, hstrict]
    intro hadmits
    exact absurd (hadmits.fresh (by decide)) (by decide)

end SlotQuery
