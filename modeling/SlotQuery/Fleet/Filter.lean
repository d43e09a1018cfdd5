import SlotQuery.Duration
import SlotQuery.Fleet.Candidate

/-!
# Active members

Which members of a snapshot count as candidates: those that are authorized, were seen lately, have an
address to report, and are not the node that waits.
-/

namespace SlotQuery

/-- The integers of 64 bits end here. -/
def int64Max : Int := Int64.maxValue.toInt

/-- The difference of two times, kept within 64 bits. -/
def timeDifference (later earlier : Int64) : Int :=
  max Int64.minValue.toInt (min int64Max (later.toInt - earlier.toInt))

/-- What makes a member a candidate. -/
structure ActiveFilter where
  /-- The node that waits. -/
  selfId : Option String := none
  /-- How long ago a member may have been seen last. -/
  lastSeen : Duration := .ofSecs 300
  version : IpVersion := .v4
  /-- The time in milliseconds, where that is not to be the current one. -/
  now : Option Int64 := none
deriving DecidableEq, Repr

namespace ActiveFilter

/-- The greatest age in milliseconds, kept within 64 bits. -/
def ageLimit (filter : ActiveFilter) : Int := min int64Max filter.lastSeen.millis

/-- The time that stands in for the clock of a record that has none. -/
def time (filter : ActiveFilter) (current : Int64) : Int64 := filter.now.getD current

/-- The age of the member's last sign of life, by the clock of its record. -/
def age (filter : ActiveFilter) (current : Int64) (member : MemberRecord) : Int :=
  timeDifference (member.clock.getD (filter.time current)) (member.lastOnline.getD 0)

/-- The member may fill a slot. -/
def accepts (filter : ActiveFilter) (current : Int64) (member : MemberRecord) : Bool :=
  !(filter.selfId.isSome && member.nodeId == filter.selfId) && member.isAuthorized &&
    filter.age current member ≤ filter.ageLimit && Address.select member.ipAssignments filter.version != ""

/-- The candidates of a snapshot, in member order. -/
def candidates (filter : ActiveFilter) (current : Int64) (members : List MemberRecord)
    (network : NetworkInfo) : List Attributes :=
  (members.filter (filter.accepts current)).map (·.attributes network filter.version)

end ActiveFilter

end SlotQuery
