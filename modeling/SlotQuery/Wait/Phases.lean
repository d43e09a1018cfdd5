import SlotQuery.Wait.Own
import SlotQuery.Wait.Slots

/-!
# Waiting in two phases

First for the slots, then, where the node that waits is known, for its own addresses. Both phases share
one limit: the second one has what the first one left of it.
-/

namespace SlotQuery

/-- What a wait is for. -/
structure WaitPlan where
  set : SelectorSet
  options : WaitOptions
  /-- The node that waits is known, so its own addresses are waited for as well. -/
  hasOwn : Bool
  /-- The addresses that the node has to hold. -/
  requested : List String
  version : IpVersion

/-- What a wait in phases ends with. -/
structure WaitResult where
  slots : Outcome Slots
  own : Option (Outcome String)

namespace WaitPlan

/-- The options of the second phase when the first one took that long. -/
def ownOptions (plan : WaitPlan) (elapsed : Duration) : WaitOptions :=
  { plan.options with timeout := plan.options.timeout.remaining elapsed }

/-- The whole wait over what the passes of either phase fetch, on a clock that moves by the interval
between passes and nothing else. There is no answer when it would go on beyond that. -/
def run (plan : WaitPlan) (slotsFetched : List (Except FleetError (List Attributes)))
    (ownFetched : List (Except FleetError (Option MemberRecord))) :
    Option (Except FleetError WaitResult) := do
  let first ← waitForSlots plan.set plan.options slotsFetched
  match first.result with
  | .error e => return .error e
  | .ok slots =>
    if !plan.hasOwn then return .ok ⟨slots, none⟩
    let elapsed := plan.options.interval.times (first.passes - 1)
    let second ← waitForOwn plan.requested plan.version (plan.ownOptions elapsed) ownFetched
    return second.result.map fun own => ⟨slots, some own⟩

/-- The whole wait when every pass of a phase fetches the same. What one pass leaves open stays open,
so the time between passes changes nothing but how long the wait takes: here the second pass comes
just after the limit, and decides. There is no answer when the wait would go on for ever. -/
def runSettled (plan : WaitPlan) (slotsFetched : Except FleetError (List Attributes))
    (ownFetched : Except FleetError (Option MemberRecord)) :
    Option (Except FleetError WaitResult) :=
  let interval := plan.options.timeout.limit.elim plan.options.interval fun l => ⟨l.nanos + 1⟩
  let plan := { plan with options := { plan.options with interval } }
  plan.run [slotsFetched, slotsFetched] [ownFetched, ownFetched]

end WaitPlan

namespace WaitResult

/-- Either phase ran out of time. -/
def timedOut (r : WaitResult) : Bool := r.slots.timedOut || r.own.any (·.timedOut)

/-- The addresses of the slots, none of them if they were not all found in time. -/
def addresses (r : WaitResult) : List String :=
  if r.slots.timedOut then [] else r.slots.state.addresses

end WaitResult

end SlotQuery
