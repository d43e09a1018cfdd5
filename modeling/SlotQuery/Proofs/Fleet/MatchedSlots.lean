import Mathlib.Data.Set.Function
import SlotQuery.Proofs.Fleet.Candidates
import SlotQuery.Proofs.Query.FirstFit
import SlotQuery.Proofs.Wait.SlotPasses

/-!
# Slots and the members that fill them

From the members of a snapshot to the addresses that a wait reports. A filled slot holds the attributes
of a member that the filter accepted and the selector of the slot accepts (`Fills`), and no two slots
hold those of the same place in the member list. Main statement: `assign_candidates_fills`.
-/

namespace SlotQuery

variable {filter : ActiveFilter} {current : Int64} {members : List MemberRecord} {network : NetworkInfo}
  {set : SelectorSet} {selectors : List Selector} {pool : List Attributes} {a : Attributes} {j k : Nat}

/-- The member may fill a slot of the selector, with these attributes. -/
structure ActiveFilter.Fills (filter : ActiveFilter) (current : Int64) (network : NetworkInfo)
    (s : Selector) (member : MemberRecord) (a : Attributes) : Prop where
  authorized : member.isAuthorized = true
  other : ∀ id, filter.selfId = some id → member.nodeId ≠ some id
  fresh : ¬ filter.Stale current member
  attributes_eq : a = member.attributes network filter.version
  accepted : s.accepts a = true
  address_ne : a.address ≠ ""
  address_eq : a.address = Address.select member.ipAssignments filter.version

theorem ActiveFilter.fills_of_accepts {member : MemberRecord} {s : Selector}
    (hmember : filter.accepts current member = true)
    (hs : s.accepts (member.attributes network filter.version) = true) :
    filter.Fills current network s member (member.attributes network filter.version) := by
  obtain ⟨hother, hauthorized, hfresh, haddress⟩ := ActiveFilter.accepts_iff.1 hmember
  -- the filter looked at the address that the attributes carry
  have heq : (member.attributes network filter.version).address =
      Address.select member.ipAssignments filter.version := member.attributes_address
  exact ⟨hauthorized, hother, hfresh, rfl, hs, heq ▸ haddress, heq⟩

/-! ## Filled slots -/

theorem Assignment.getElem?_slots {assignment : Assignment} :
    assignment.slots[j]? = some (some a) ↔
      ∃ i, assignment.held[j]? = some (some i) ∧ assignment.pool[i]? = some a := by
  simp [slots, Option.map_eq_some_iff, Option.bind_eq_some_iff]

/-- The slots that hold a candidate. -/
def Slots.filled (slots : Slots) : Set Nat := {j | ∃ a, slots[j]? = some (some a)}

/-- Every filled slot has a place in the member list, and no two of them have the same. -/
theorem exists_place_of_slots (filter : ActiveFilter) (current : Int64) (members : List MemberRecord)
    (network : NetworkInfo) (set : SelectorSet) :
    ∃ place : Nat → Nat,
      Set.InjOn place (Slots.filled (set.assign (filter.candidates current members network)).slots) ∧
      ∀ j a, (set.assign (filter.candidates current members network)).slots[j]? = some (some a) →
        ∃ member s, members[place j]? = some member ∧ set.get? j = some s ∧
          filter.Fills current network s member a := by
  obtain ⟨place, hplace⟩ := filter.exists_place_of_candidates current members network
  -- the place of what a slot holds; empty slots have none, so any number will do
  let held := (set.assign (filter.candidates current members network)).held
  refine ⟨fun j => place ((held[j]?.getD none).getD 0), ?_, fun j a hj => ?_⟩
  · rintro j ⟨a, hj⟩ k ⟨b, hk⟩ hjk
    obtain ⟨i, hi, -⟩ := Assignment.getElem?_slots.1 hj
    obtain ⟨i', hi', -⟩ := Assignment.getElem?_slots.1 hk
    simp only [held, hi, hi', Option.getD_some] at hjk
    obtain rfl : i = i' := place.injective hjk
    exact held_assign_inj hi hi'
  · obtain ⟨i, hi, ha⟩ := Assignment.getElem?_slots.1 hj
    obtain ⟨member, hmember, haccepts, rfl⟩ := hplace i a ha
    obtain ⟨s, hs, c, hc, hsaccepts, -⟩ := mem_choices_of_held hi
    obtain rfl : c = _ := Option.some.inj (hc.symm.trans ha)
    refine ⟨member, s, ?_, hs, ActiveFilter.fills_of_accepts haccepts hsaccepts⟩
    simpa [held, hi] using hmember

/-! ## Complete slots -/

/-- Where every slot is filled, the addresses are those of the slots in turn. -/
theorem Slots.map_address_eq {slots : Slots} (h : ∀ slot ∈ slots, slot.isSome = true) :
    slots.map (·.map Attributes.address) = slots.addresses.map some := by
  induction slots with
  | nil => rfl
  | cons slot slots ih =>
    obtain ⟨hslot, hslots⟩ := List.forall_mem_cons.1 h
    obtain ⟨a, rfl⟩ := Option.isSome_iff_exists.1 hslot
    rw [List.map_cons, ih hslots]
    rfl

theorem isSome_of_isComplete (h : (assign selectors pool).isComplete = true) :
    ∀ slot ∈ (assign selectors pool).slots, slot.isSome = true := by
  intro slot hslot
  obtain ⟨held, hheld, rfl⟩ := List.mem_map.1 hslot
  exact (isSome_getElem?_of_held hheld).trans (List.all_eq_true.1 h held hheld)

/-- A wait that finishes in time ends with the slots of a pool that it fetched and that gives what the
mode asks for. -/
theorem exists_pool_of_waitForSlots {options : WaitOptions}
    {fetched : List (Except FleetError (List Attributes))} {passes : Nat} {slots : Slots}
    (h : waitForSlots set options fetched = some ⟨passes, .ok ⟨slots, false⟩⟩) :
    ∃ pool, .ok pool ∈ fetched ∧ options.mode.isReached (set.assign pool) = true ∧
      slots = (set.assign pool).slots := by
  obtain ⟨n, -, hverdict, -⟩ := Watch.run_eq_some_iff.1 h
  cases SlotWait.verdict?_eq_ended_iff.1 hverdict with
  | reached hpool hreached => exact ⟨_, List.mem_of_getElem? hpool, hreached, rfl⟩

/-! ## Main statement -/

/-- **From members to addresses.** The slots that are filled from the candidates of a snapshot have
places in its member list, no two the same, and each holds the attributes of the member at its place:
one that is authorized, is not the node that waits, was seen lately, and that the selector of the slot
accepts. The slot's address is the one that the version picks for the member, and there is one. So a
wait for all slots that finishes in time reports an address for each of them, in slot order. -/
theorem assign_candidates_fills (set : SelectorSet) :
    (∀ (filter : ActiveFilter) (current : Int64) (members : List MemberRecord) (network : NetworkInfo),
      let slots := (set.assign (filter.candidates current members network)).slots
      ∃ place : Nat → Nat, Set.InjOn place (Slots.filled slots) ∧
        ∀ j a, slots[j]? = some (some a) →
          ∃ member s, members[place j]? = some member ∧ set.get? j = some s ∧
            filter.Fills current network s member a) ∧
    ∀ options fetched passes slots, options.mode = .available →
      (∀ pool, .ok pool ∈ fetched →
        ∃ (filter : ActiveFilter) (current : Int64) (members : List MemberRecord) (network : NetworkInfo),
          pool = filter.candidates current members network) →
      waitForSlots set options fetched = some ⟨passes, .ok ⟨slots, false⟩⟩ →
      (∃ pool, .ok pool ∈ fetched ∧ slots = (set.assign pool).slots) ∧
        slots.addresses.length = set.size ∧
        slots.map (·.map Attributes.address) = slots.addresses.map some ∧
        ∀ address ∈ slots.addresses, address ≠ "" := by
  refine ⟨fun filter current members network => exists_place_of_slots filter current members network set,
    fun options fetched passes slots hmode hpools hwait => ?_⟩
  obtain ⟨pool, hpool, hreached, rfl⟩ := exists_pool_of_waitForSlots hwait
  obtain ⟨filter, current, members, network, rfl⟩ := hpools pool hpool
  rw [hmode] at hreached
  have hmap := Slots.map_address_eq (isSome_of_isComplete hreached)
  refine ⟨⟨_, hpool, rfl⟩, ?_, hmap, fun address haddress => ?_⟩
  · have hlength := congrArg List.length hmap
    rw [List.length_map, List.length_map, Assignment.slots, List.length_map] at hlength
    exact hlength.symm.trans (length_held_assign set.selectors _)
  · obtain ⟨slot, hslot, haddress⟩ := List.mem_filterMap.1 haddress
    obtain ⟨a, rfl, rfl⟩ := Option.map_eq_some_iff.1 haddress
    obtain ⟨j, hj⟩ := List.getElem?_of_mem hslot
    obtain ⟨place, -, hplace⟩ := exists_place_of_slots filter current members network set
    obtain ⟨member, s, -, -, hfills⟩ := hplace j a hj
    exact hfills.address_ne

/-- The first member was last seen too long ago, so the slot goes to the second one, and the wait reports
its address. The tag that is called like a base field is in nobody's way. -/
theorem assign_candidates_fills_second_member :
    ∃ (set : SelectorSet) (filter : ActiveFilter) (members : List MemberRecord)
      (network : NetworkInfo) (a : Attributes),
      let pool := filter.candidates 0 members network
      (set.assign pool).slots = [some a] ∧
      (∃ (i : Nat) (member : MemberRecord) (s : Selector), members[i]? = some member ∧
        set.get? 0 = some s ∧ filter.Fills 0 network s member a) ∧
      waitForSlots set {} [.ok pool] = some ⟨1, .ok ⟨[some a], false⟩⟩ ∧
      Slots.addresses [some a] = ["10.0.0.2"] ∧ "10.0.0.2" ≠ "" := by
  let set : SelectorSet := ⟨[.condition ⟨"name", .equals, "n", _, rfl⟩]⟩
  let network : NetworkInfo :=
    ⟨none, some (TextMap.ofList [("address", ⟨1, none⟩)]), none⟩
  let config (address : String) : MemberConfig :=
    ⟨some true, some [address], none, some [(1, .number 7)], none⟩
  let stale : MemberRecord :=
    ⟨some "a", some "n", none, some 1000000, some 0, some (config "10.0.0.1/24")⟩
  let fresh : MemberRecord :=
    ⟨some "b", some "n", none, some 1000000, some 900000, some (config "10.0.0.2/24")⟩
  let filter : ActiveFilter := {}
  let pool := filter.candidates 0 [stale, fresh] network
  let a := fresh.attributes network .v4
  have hslots : (set.assign pool).slots = [some a] := by decide +kernel
  have hwait : waitForSlots set {} [.ok pool] = some ⟨1, .ok ⟨[some a], false⟩⟩ := by
    have hreached : (set.assign pool).isComplete = true := by decide +kernel
    simp only [waitForSlots, Watch.run, Watch.runFrom, Watch.step, Watch.pass, watchSlots,
      WaitMode.isReached, hreached, hslots, if_true]
  obtain ⟨hfilled, hreported⟩ := assign_candidates_fills set
  obtain ⟨place, -, hplace⟩ := hfilled filter 0 [stale, fresh] network
  obtain ⟨member, s, hmember, hs, hfills⟩ := hplace 0 a (by rw [hslots]; rfl)
  have haddresses : Slots.addresses [some a] = ["10.0.0.2"] := by decide +kernel
  obtain ⟨-, -, -, hne⟩ := hreported {} [.ok pool] 1 [some a] rfl
    (fun pool' hpool => ⟨filter, 0, [stale, fresh], network, by simpa using hpool⟩) hwait
  exact ⟨set, filter, _, network, a, hslots, ⟨_, member, s, hmember, hs, hfills⟩, hwait, haddresses,
    hne _ (haddresses ▸ List.mem_singleton_self _)⟩

end SlotQuery
