import SlotQuery.Fleet.Error
import SlotQuery.Text.Blank

/-!
# Timeouts

How long a wait may last, and whether running out of time is an error. A timeout is written as a
decimal number of seconds; nothing, zero and negative numbers mean that there is no limit, and a `?`
at the end makes running out of time harmless.
-/

namespace SlotQuery

open Text

/-- The limit of a wait. -/
structure Timeout where
  limit : Option Duration
  fatal : Bool
deriving DecidableEq, Repr

namespace Timeout

/-- No limit. -/
def unlimited : Timeout := ⟨none, true⟩

/-- The time spent is beyond the limit. -/
def expired (t : Timeout) (elapsed : Duration) : Bool := t.limit.any fun l => elapsed.longerThan l

/-- What is left once some time is spent. -/
def remaining (t : Timeout) (elapsed : Duration) : Timeout :=
  { t with limit := t.limit.map (·.minus elapsed) }

/-- The limit that a number of seconds means; a number that is too large means none. -/
def limitOf? (seconds : Numeral) : Option (Option Duration) :=
  match seconds.toBinary64? with
  | none => none
  | some x =>
    if seconds.negative || x.mantissa = 0 then some none else (Duration.ofSeconds? x).map some

/-- The timeout that the text spells. -/
def parse (text : String) : Except FleetError Timeout :=
  let cs := trimBoth text.toList
  let (number, fatal) :=
    if cs.getLast? = some '?' then (trimBoth cs.dropLast, false) else (cs, true)
  if number.isEmpty then .ok ⟨none, fatal⟩
  else
    match (Numeral.parse? number).bind limitOf? with
    | none => .error (.invalidTimeout text)
    | some limit => .ok ⟨limit, fatal⟩

/-- The text of the timeout. -/
def render (t : Timeout) : String :=
  (t.limit.getD .zero).toSeconds.render ++ if t.fatal then "" else "?"

end Timeout

end SlotQuery
