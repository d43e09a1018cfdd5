import SlotQuery.Duration
import SlotQuery.Query.Error

/-!
# Fleet errors

What can go wrong between a query and the nodes it selects. An unreadable file may be
about to be replaced, so its errors are worth another attempt; all others are final.
-/

namespace SlotQuery

/-- Why nodes cannot be selected or waited for. -/
inductive FleetError where
  | query (e : QueryError)
  /-- The file cannot be read. -/
  | io (path : String)
  /-- The file does not hold the records it should. -/
  | decode (path : String)
  | invalidTimeout (text : String)
  | invalidIpVersion (text : String)
  | invalidWaitMode (text : String)
  /-- Time ran out with `pending` slots or addresses still open. -/
  | timeout (elapsed : Duration) (pending : Nat)
deriving DecidableEq, Repr

namespace FleetError

/-- Another attempt may succeed. -/
def isTransient : FleetError → Bool
  | io _ | decode _ => true
  | _ => false

/-- The error as shown to a user. -/
def message : FleetError → String
  | query e => e.message
  | io path => "Failed to read " ++ path
  | decode path => "Failed to decode " ++ path
  | invalidTimeout text => "Invalid timeout: " ++ text
  | invalidIpVersion text => "Invalid ip version: " ++ text
  | invalidWaitMode text => "Invalid wait mode: " ++ text
  | timeout elapsed pending =>
    "Timeout after " ++ elapsed.render ++ " with " ++ toString pending ++
      " slot(s) or address(es) unresolved"

end FleetError

end SlotQuery
