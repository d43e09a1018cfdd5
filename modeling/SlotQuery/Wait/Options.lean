import SlotQuery.Text.Case
import SlotQuery.Wait.Timeout

/-!
# Options of a wait

The state of the slots that is waited for, the time between passes and the limit of the wait.
-/

namespace SlotQuery

open Text

/-- The state of the slots that a wait ends with. -/
inductive WaitMode where
  /-- Every slot holds a candidate. -/
  | available
  /-- No slot holds a candidate. -/
  | unavailable
deriving DecidableEq, Repr

namespace WaitMode

/-- The name of the mode. -/
def render : WaitMode → String
  | available => "available"
  | unavailable => "unavailable"

/-- The mode with exactly this name. -/
def ofName? : String → Option WaitMode
  | "available" => some available
  | "unavailable" => some unavailable
  | _ => none

/-- The mode that the text names, in any case and with white space around it. -/
def parse (text : String) : Except FleetError WaitMode :=
  match ofName? (lower (trim text)) with
  | some mode => .ok mode
  | none => .error (.invalidWaitMode text)

end WaitMode

/-- How to wait. -/
structure WaitOptions where
  interval : Duration := .ofMillis 3000
  timeout : Timeout := .unlimited
  mode : WaitMode := .available
deriving DecidableEq, Repr

end SlotQuery
