import SlotQuery.Fleet.Candidate
import SlotQuery.Query.Assignment
import SlotQuery.Wait.Polling

/-!
# Waiting for slots

Every pass assigns a fresh pool to the slots, until all of them are filled or all are empty,
whichever the mode asks for. The slots of the last pool stay known through passes that fetch nothing.
-/

namespace SlotQuery

/-- What the slots hold. -/
abbrev Slots := List (Option Attributes)

namespace Slots

/-- The number of slots that are not as the mode asks for. -/
def pending (mode : WaitMode) (slots : Slots) : Nat :=
  match mode with
  | .available => slots.countP Option.isNone
  | .unavailable => slots.countP Option.isSome

/-- The addresses of the filled slots, in slot order. -/
def addresses (slots : Slots) : List String := slots.filterMap (·.map Attributes.address)

/-- Every slot is filled. -/
def isComplete (slots : Slots) : Bool := slots.all Option.isSome

end Slots

/-- The assignment is in the state that the mode asks for. -/
def WaitMode.isReached (mode : WaitMode) (a : Assignment) : Bool :=
  match mode with
  | .available => a.isComplete
  | .unavailable => a.isVacant

/-- The wait for the slots of the selectors. -/
def watchSlots (set : SelectorSet) (mode : WaitMode) : Watch Slots (List Attributes) where
  look _ pool :=
    let a := set.assign pool
    ⟨a.slots, mode.isReached a, Slots.pending mode a.slots⟩
  idle slots := ⟨slots, false, Slots.pending mode slots⟩

/-- What the slots hold before the first pass. -/
def SelectorSet.emptySlots (set : SelectorSet) : Slots := set.selectors.map fun _ => none

/-- The whole wait for the slots of the selectors. -/
def waitForSlots (set : SelectorSet) (options : WaitOptions)
    (fetched : List (Except FleetError (List Attributes))) : Option (Watch.Ended Slots) :=
  (watchSlots set options.mode).run options set.emptySlots fetched

end SlotQuery
