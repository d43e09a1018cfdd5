import SlotQuery.Cli.Usage
import Std.Time.DateTime.Timestamp

/-!
# The program

Reading files, the clock and the pauses between the passes of a wait. All else is done by the modules
that this one imports.
-/

namespace SlotQuery.Cli

/-- The content of a file, if it can be read as text. -/
def readText (name : String) : IO (Option String) := do
  try return some (← IO.FS.readFile name) catch _ => return none

/-- The files with these names, as they are now. -/
def readFiles (names : List String) : IO Files := do
  let contents ← names.mapM fun name => do return (name, ← readText name)
  return fun name => (contents.lookup name).join

/-- The names of the files that a command reads once. -/
def fileNames : Command → List String
  | .tokens .. | .check .. => []
  | .assign _ _ pool _ => [pool]
  | .wait args => args.network :: (args.config.map fun name => [name, name ++ ".toml"]).getD []

/-- The time in milliseconds. -/
def currentTime : IO Int64 := do
  let now ← Std.Time.Timestamp.now
  return Int64.ofInt now.toMillisecondsSinceUnixEpoch.val

/-- The time since a reading of the clock. -/
def elapsedSince (start : Nat) : IO Duration := do return ⟨(← IO.monoNanosNow) - start⟩

/-- The longest pause in one go, in milliseconds. -/
def maxPause : Nat := Nat.pow 2 31

/-- Pauses for a number of milliseconds. -/
partial def pause (millis : Nat) : IO Unit := do
  IO.sleep (UInt32.ofNat (min millis maxPause))
  if maxPause < millis then pause (millis - maxPause)

/-- A wait by the clock, from its start on. -/
partial def watch {σ ρ : Type} (w : Watch σ ρ) (options : WaitOptions)
    (fetch : IO (Except FleetError ρ)) (start : Nat) (state : σ) :
    IO (Except FleetError (Outcome σ)) := do
  let fetched ← fetch
  match w.step options.timeout (← elapsedSince start) state fetched with
  | .ended result => return result
  | .again state =>
    pause options.interval.millis
    watch w options fetch start state

/-- A prepared wait by the clock. -/
def waitByClock (p : Preparation) : IO (Except FleetError WaitResult) := do
  let plan := p.plan
  let start ← IO.monoNanosNow
  let pool := do
    return p.snapshot.pool (← currentTime) (← readText p.snapshot.path)
  match ← watch (watchSlots plan.set plan.options.mode) plan.options pool start
      plan.set.emptySlots with
  | .error e => return .error e
  | .ok slots =>
    if !plan.hasOwn then return .ok ⟨slots, none⟩
    let options := plan.ownOptions (← elapsedSince start)
    let own := do return p.snapshot.own (← readText p.snapshot.path)
    let result ← watch (watchOwn plan.requested plan.version) options own (← IO.monoNanosNow) ""
    return result.map fun own => ⟨slots, some own⟩

/-- The result of a command. -/
def perform (c : Command) : IO (Except Failure String) := do
  let files ← readFiles (fileNames c)
  match c with
  | .tokens query fields format => return runTokens query fields format
  | .check query fields => return runCheck query fields
  | .assign query fields pool format => return runAssign files query fields pool format
  | .wait args =>
    match prepare files args with
    | .error e => return .error e
    | .ok p => return ((← waitByClock p).map resultLines).mapError .fleet

end SlotQuery.Cli

/-- The program. -/
def main (args : List String) : IO UInt32 := do
  let ending ← match SlotQuery.Cli.Command.ofArguments args with
    | .error stop => pure stop.ending
    | .ok c => SlotQuery.Cli.endingOf <$> SlotQuery.Cli.perform c
  IO.print ending.output
  IO.eprint ending.error
  return UInt32.ofNat ending.exitCode
