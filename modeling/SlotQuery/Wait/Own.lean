import SlotQuery.Fleet.Address
import SlotQuery.Fleet.Record
import SlotQuery.Wait.Polling

/-!
# Waiting for the node's own addresses

Every pass looks up the record of the node that waits, until it holds all requested addresses, or any
address of the version when none is requested. The address of the last record found is kept.
-/

namespace SlotQuery

/-- The wait for the requested addresses. -/
def watchOwn (requested : List String) (version : IpVersion) :
    Watch String (Option MemberRecord) where
  look address found :=
    match found with
    | none => ⟨address, false, max 1 requested.length⟩
    | some member =>
      let assigned := member.ipAssignments
      ⟨Address.select assigned version, Address.holdsAll assigned requested version,
        if requested.isEmpty then 1 else Address.missing assigned requested⟩
  idle address := ⟨address, false, max 1 requested.length⟩

/-- The whole wait for the requested addresses. -/
def waitForOwn (requested : List String) (version : IpVersion) (options : WaitOptions)
    (fetched : List (Except FleetError (Option MemberRecord))) : Option (Watch.Ended String) :=
  (watchOwn requested version).run options "" fetched

end SlotQuery
