import SlotQuery.Cli.Arguments
import SlotQuery.Fleet.Snapshot
import SlotQuery.Json.Printer
import SlotQuery.Wait.Phases
import SlotQuery.Yaml.Printer

/-!
# Running a command

What a command writes, given the contents of files by name. The commands that do not wait are complete
here; a wait is prepared here, and its result is written here.
-/

namespace SlotQuery.Cli

/-- Why a command fails. -/
inductive Failure where
  | query (e : QueryError)
  | fleet (e : FleetError)
  | settings (e : SettingsError)
deriving DecidableEq, Repr

namespace Failure

/-- The failure as shown to a user. -/
def message : Failure → String
  | query e => e.message
  | fleet e => e.message
  | settings e => "Configuration error: " ++ e.message

/-- The exit code of the program: running out of time is told apart. -/
def exitCode : Failure → Nat
  | fleet (.timeout _ _) => 2
  | _ => 1

end Failure

/-- The contents of files by name; a file that is not there has none. -/
abbrev Files := String → Option String

/-! ## Results -/

/-- The name of a token that is no condition. -/
def tokenName : Token → String
  | .condition _ => "Condition"
  | .and => "And"
  | .or => "Or"
  | .not => "Not"
  | .groupOpen => "GroupOpen"
  | .groupClose => "GroupClose"
  | .endOfInput => "EndOfInput"

/-- A token as JSON: its name, and the text of a condition under it. -/
def tokenJson : Token → Json
  | .condition text => .object [(tokenName (.condition text), .text text)]
  | t => .text (tokenName t)

/-- A token in YAML: its name, which is the tag of a condition's text. -/
def tokenItem : Token → Yaml.Item
  | .condition text => .tagged (tokenName (.condition text)) text
  | t => .text (tokenName t)

/-- What a slot holds as JSON. -/
def slotJson : Option Attributes → Json :=
  Json.ofOption fun a => .object (a.entries.map fun e => (e.1, .text e.2))

/-- What a slot holds in YAML. -/
def slotItem : Option Attributes → Yaml.Item
  | none => .null
  | some a => .map a.entries

/-- A list in the format, with one line break at its end. -/
def listing {α : Type} (json : α → Json) (item : α → Yaml.Item) (format : OutputFormat)
    (as : List α) : String :=
  let written := match format with
    | .json => Json.pretty (.list (as.map json))
    | .yaml => Yaml.render (as.map item)
  String.ofList (Text.trimRight written.toList) ++ "\n"

/-! ## Commands that do not wait -/

/-- The tokens of a query. -/
def runTokens (query : String) (fields : List String) (format : OutputFormat) :
    Except Failure String := do
  let ts ← (tokenize (FieldSet.ofList fields) query).mapError .query
  return listing tokenJson tokenItem format ts

/-- The selectors of a query, one to a line with the number of its slot. -/
def runCheck (query : String) (fields : List String) : Except Failure String := do
  let set ← (SelectorSet.compile (FieldSet.ofList fields) query).mapError .query
  return String.join (set.selectors.zipIdx.map fun (s, slot) =>
    toString slot ++ ": " ++ s.render ++ "\n")

/-- The slots of a query filled from a pool. Without known fields those of the candidates are known. -/
def runAssign (files : Files) (query : String) (fields : List String) (pool : String)
    (format : OutputFormat) : Except Failure String := do
  let candidates ← (decodeFile pool (Json.asList? Attributes.ofJson?) (files pool)).mapError .fleet
  let known := if fields.isEmpty then candidates.flatMap TextMap.keys else fields
  let set ← (SelectorSet.compile (FieldSet.ofList known) query).mapError .query
  return listing slotJson slotItem format (set.assign candidates).slots

/-! ## Waiting -/

/-- A wait that is ready to start: what it is for, and where its members come from. -/
structure Preparation where
  plan : WaitPlan
  snapshot : Snapshot

/-- The content of a settings file: that of the file with the name, else of the one with `.toml` behind
the name. -/
def settingsContent (files : Files) (name : String) : Option String :=
  files name <|> files (name ++ ".toml")

/-- Prepares a wait. The settings come first, then the network, then the query. -/
def prepare (files : Files) (args : WaitArguments) : Except Failure Preparation := do
  let settings ← (Settings.load (args.config.map (settingsContent files)) args.flags).mapError
    .settings
  let network ← (decodeFile args.network NetworkInfo.ofJson? (files args.network)).mapError .fleet
  let set ← (SelectorSet.compile network.knownFields args.query).mapError .query
  return {
    plan := {
      set
      options := settings.wait
      hasOwn := args.selfId.isSome
      requested := args.requested
      version := settings.version }
    snapshot := { path := args.members, network, filter := settings.filter args.selfId } }

/-- What a wait writes at its end. -/
def resultLines (r : WaitResult) : String :=
  "wait_for_addresses=" ++ String.intercalate " " r.addresses ++ "\n" ++
    (match r.own with
      | none => ""
      | some own => "ip=" ++ own.state ++ "\n") ++
    "timeout=" ++ (if r.timedOut then "true" else "false") ++ "\n"

/-- What a wait writes when its files stay as they are, unless it would go on for ever. -/
def runWait (files : Files) (now : Int64) (args : WaitArguments) : Option (Except Failure String) :=
  match prepare files args with
  | .error e => some (.error e)
  | .ok p =>
    let content := files p.snapshot.path
    (p.plan.runSettled (p.snapshot.pool now content) (p.snapshot.own content)).map fun result =>
      (result.map resultLines).mapError .fleet

/-- What a command writes when its files stay as they are, unless it would wait for ever. -/
def Command.run (files : Files) (now : Int64) : Command → Option (Except Failure String)
  | .tokens query fields format => some (runTokens query fields format)
  | .check query fields => some (runCheck query fields)
  | .assign query fields pool format => some (runAssign files query fields pool format)
  | .wait args => runWait files now args

end SlotQuery.Cli
