import SlotQuery.Fleet.IpVersion
import SlotQuery.Json.Basic
import SlotQuery.Wait.Options

/-!
# Options as JSON

Timeouts and address versions are written as their texts. A mode is written as its name; an object
whose only key is the name, with nothing under it, reads as the mode too.
-/

namespace SlotQuery

/-- The timeout that the JSON value holds. -/
def Timeout.ofJson? : Json → Option Timeout
  | .text s => (Timeout.parse s).toOption
  | _ => none

/-- The version that the JSON value holds. -/
def IpVersion.ofJson? : Json → Option IpVersion
  | .text s => IpVersion.parse? s
  | _ => none

/-- The mode that the JSON value holds. -/
def WaitMode.ofJson? : Json → Option WaitMode
  | .text s => WaitMode.ofName? s
  | .object [(name, .null)] => WaitMode.ofName? name
  | _ => none

end SlotQuery
