import SlotQuery.Fleet.Filter
import SlotQuery.Settings.Logging
import SlotQuery.Settings.Value

/-!
# Settings

How to wait, how members become candidates, and how to log, read from a table of settings. The table
that others are laid over holds the defaults.
-/

namespace SlotQuery

/-- The settings of a run. -/
structure Settings where
  wait : WaitOptions
  version : IpVersion
  lastSeen : Duration
  logging : LogSettings
deriving DecidableEq, Repr

/-- Why there are no settings. -/
inductive SettingsError where
  | missingFile
  | malformedFile
  | invalidPath (text : String)
  | missingSection (name : String)
  | invalidValue (name : String)
deriving DecidableEq, Repr

/-- The error as shown to a user. -/
def SettingsError.message : SettingsError → String
  | missingFile => "the file cannot be read"
  | malformedFile => "the file is not valid TOML"
  | invalidPath text => "not a path of keys: " ++ text
  | missingSection name => "section without all its keys: " ++ name
  | invalidValue name => "invalid value of " ++ name

namespace Settings

/-- The table of the defaults. -/
def defaults : Table :=
  [("wait", .table [("interval_ms", .int 3000), ("timeout", .text "0"), ("mode", .text "available")]),
    ("fleet", .table [("ip_version", .text "4"), ("last_seen_timeout_secs", .int 300)]),
    ("logging", .table [("level", .text "info"), ("format", .text "text")])]

/-- The value of a section's key. -/
def valueOf {α : Type} (name : String) (a? : Option α) : Except SettingsError α :=
  match a? with
  | some a => .ok a
  | none => .error (.invalidValue name)

/-- The values of a section of the table. -/
def sectionOf (t : Table) (name : String) (keys : List String) : Except SettingsError (List Toml) :=
  match (t.get? name).bind (section? keys) with
  | some vs => .ok vs
  | none => .error (.missingSection name)

/-- The options of a wait. -/
def waitOf (t : Table) : Except SettingsError WaitOptions := do
  match ← sectionOf t "wait" ["interval_ms", "timeout", "mode"] with
  | [interval, timeout, mode] =>
    let interval ← valueOf "wait.interval_ms" (asCount? interval)
    let timeout ← valueOf "wait.timeout" ((asText? timeout).bind fun s => (Timeout.parse s).toOption)
    let mode ← valueOf "wait.mode" (asMode? mode)
    return { interval := .ofMillis interval, timeout, mode }
  | _ => .error (.missingSection "wait")

/-- The address version, and how long ago an active member was seen at most. -/
def fleetOf (t : Table) : Except SettingsError (IpVersion × Duration) := do
  match ← sectionOf t "fleet" ["ip_version", "last_seen_timeout_secs"] with
  | [version, lastSeen] =>
    let version ← valueOf "fleet.ip_version" ((asText? version).bind IpVersion.parse?)
    let lastSeen ← valueOf "fleet.last_seen_timeout_secs" (asCount? lastSeen)
    return (version, .ofSecs lastSeen)
  | _ => .error (.missingSection "fleet")

/-- The level and format of log lines. -/
def loggingOf (t : Table) : Except SettingsError LogSettings := do
  match ← sectionOf t "logging" ["level", "format"] with
  | [level, format] =>
    return ⟨← valueOf "logging.level" (asText? level), ← valueOf "logging.format" (asText? format)⟩
  | _ => .error (.missingSection "logging")

/-- The settings that the table holds. Keys it need not have are passed over. -/
def ofTable (t : Table) : Except SettingsError Settings := do
  let wait ← waitOf t
  let (version, lastSeen) ← fleetOf t
  return { wait, version, lastSeen, logging := ← loggingOf t }

/-- The filter of candidates for the node that waits. -/
def filter (s : Settings) (selfId : Option String) : ActiveFilter :=
  { selfId, lastSeen := s.lastSeen, version := s.version, now := none }

end Settings

end SlotQuery
