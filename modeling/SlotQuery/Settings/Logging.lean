import SlotQuery.Text.Case

/-!
# Logging settings

The level and format of log lines, given by name. An unknown level counts as `info`, an unknown
format as text.
-/

namespace SlotQuery

/-- How log lines are written. -/
inductive LogFormat where
  | text
  | json
deriving DecidableEq, Repr

/-- The level and format as configured. -/
structure LogSettings where
  level : String
  format : String
deriving DecidableEq, Repr

namespace LogSettings

/-- The level that the settings come down to. -/
def directive (s : LogSettings) : String :=
  let level := Text.lower s.level
  if ["trace", "debug", "warn", "error"].contains level then level else "info"

/-- The format that the settings come down to. Only its letters of ASCII may be of either case. -/
def logFormat (s : LogSettings) : LogFormat :=
  if s.format.toList.map Char.toLower = ['j', 's', 'o', 'n'] then .json else .text

end LogSettings

end SlotQuery
