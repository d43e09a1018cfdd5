import SlotQuery.Settings.Layers

/-!
# Command line arguments

`Request.ofArguments` reads the arguments of the program. An option is written `--name value`,
`--name=value`, or with its letter `-f value`, `-fvalue`, `-f=value`; behind `--` nothing is an option.
A value that is an argument of its own may start with a dash only if it is nothing but a dash.
-/

namespace SlotQuery.Cli

open Text

/-- How many values an option takes, and how often it may stand. -/
inductive Arity where
  /-- No value, once. -/
  | switch
  /-- A value, once. -/
  | single
  /-- A value each time. -/
  | repeated
deriving DecidableEq, Repr

/-- An option of a command. -/
structure OptionSpec where
  name : String
  letter : Option Char := none
  arity : Arity := .single
  accepts : String → Bool := fun _ => true

/-- The arguments of a command: its operands and the values of its options, in order. -/
structure Given where
  operands : List String := []
  options : List (String × String) := []
deriving DecidableEq, Repr

/-- Why arguments are not a command. -/
inductive Stop where
  | help
  | version
  | misuse
deriving DecidableEq, Repr

namespace Given

/-- The values of an option. -/
def values (g : Given) (name : String) : List String :=
  (g.options.filter (·.1 == name)).map (·.2)

/-- The value of an option that stands at most once. -/
def value? (g : Given) (name : String) : Option String := (g.values name).head?

/-- The option was given. -/
def has (g : Given) (name : String) : Bool := g.options.any (·.1 == name)

/-- The arguments with one more option. -/
def add (g : Given) (spec : OptionSpec) (value : String) : Except Stop Given :=
  if !spec.accepts value || (spec.arity != .repeated && g.has spec.name) then .error .misuse
  else .ok { g with options := g.options ++ [(spec.name, value)] }

/-- The arguments with one more operand, of which there is one. -/
def operand (g : Given) (value : String) : Except Stop Given :=
  if g.operands.isEmpty then .ok { g with operands := [value] } else .error .misuse

end Given

/-- How an argument reads. -/
inductive Argument where
  /-- Options end here. -/
  | ending
  | option (spec : OptionSpec) (value : Option String)
  | operand (value : String)
  | stop (reason : Stop)

/-- An argument with the name of an option, and perhaps its value behind `=`. -/
def longArgument (specs : List OptionSpec) (cs : List Char) : Argument :=
  let (name, rest) := cs.span (· != '=')
  let value := match rest with
    | [] => none
    | _ :: v => some (String.ofList v)
  match specs.find? (·.name == String.ofList name) with
  | some spec =>
    if spec.arity == .switch && value.isSome then .stop .misuse else .option spec value
  | none => .stop (if String.ofList name == "help" && value.isNone then .help else .misuse)

/-- An argument with the letter of an option, and perhaps its value. -/
def shortArgument (specs : List OptionSpec) (letter : Char) (cs : List Char) : Argument :=
  match specs.find? (·.letter == some letter) with
  | some spec =>
    .option spec (match cs with
      | [] => none
      | '=' :: v => some (String.ofList v)
      | v => some (String.ofList v))
  | none => .stop (if letter == 'h' then .help else .misuse)

/-- How an argument reads in front of the end of options. -/
def Argument.read (specs : List OptionSpec) (arg : String) : Argument :=
  match arg.toList with
  | ['-', '-'] => .ending
  | '-' :: '-' :: cs => longArgument specs cs
  | '-' :: c :: cs => shortArgument specs c cs
  | _ => .operand arg

/-- The arguments behind those that are given already. -/
def readArguments (specs : List OptionSpec) (g : Given) : List String → Except Stop Given
  | [] => .ok g
  | arg :: args =>
    match Argument.read specs arg with
    | .stop reason => .error reason
    | .ending => args.foldlM Given.operand g
    | .operand value => do readArguments specs (← g.operand value) args
    | .option spec (some value) => do readArguments specs (← g.add spec value) args
    | .option spec none =>
      if spec.arity == .switch then do readArguments specs (← g.add spec "") args
      else
        match args with
        | [] => .error .misuse
        | value :: args =>
          match Argument.read specs value with
          | .operand _ => do readArguments specs (← g.add spec value) args
          | _ => .error .misuse

/-! ## Commands -/

/-- How results are written. -/
inductive OutputFormat where
  | json
  | yaml
deriving DecidableEq, Repr

/-- The arguments of a wait. -/
structure WaitArguments where
  query : String
  members : String
  network : String
  selfId : Option String
  requested : List String
  config : Option String
  flags : Flags
deriving DecidableEq, Repr

/-- What the program is asked to do. -/
inductive Command where
  /-- Shows the tokens of a query. -/
  | tokens (query : String) (fields : List String) (format : OutputFormat)
  /-- Shows the selectors of a query. -/
  | check (query : String) (fields : List String)
  /-- Assigns the candidates of a file to the slots of a query. -/
  | assign (query : String) (fields : List String) (pool : String) (format : OutputFormat)
  /-- Waits for the slots of a query. -/
  | wait (arguments : WaitArguments)
deriving DecidableEq, Repr

/-- The option for a known field. -/
def fieldOption : OptionSpec := { name := "field", letter := some 'f', arity := .repeated }

/-- The option for the format of results. -/
def formatOption : OptionSpec :=
  { name := "format", accepts := fun value => value == "json" || value == "yaml" }

/-- The options of a wait. -/
def waitOptions : List OptionSpec :=
  [{ name := "members" }, { name := "network" }, { name := "self-id" },
    { name := "ip", arity := .repeated }, { name := "config", letter := some 'c' },
    { name := "timeout" }, { name := "interval-ms", accepts := fun v => (count? v).isSome },
    { name := "unavailable", arity := .switch }, { name := "ip-version" }]

namespace Given

/-- The value of something that has to be there. -/
def require {α : Type} (a? : Option α) : Except Stop α :=
  match a? with
  | some a => .ok a
  | none => .error .misuse

/-- The query, which is the operand. -/
def query (g : Given) : Except Stop String := require g.operands.head?

/-- The format of results. -/
def format (g : Given) : OutputFormat := if g.value? "format" = some "yaml" then .yaml else .json

/-- The arguments of a wait. Own addresses need the node that waits. -/
def waitArguments (g : Given) : Except Stop WaitArguments := do
  let query ← g.query
  let members ← require (g.value? "members")
  let network ← require (g.value? "network")
  if g.has "ip" && !g.has "self-id" then throw .misuse
  return {
    query, members, network
    selfId := g.value? "self-id"
    requested := g.values "ip"
    config := g.value? "config"
    flags := {
      timeout := g.value? "timeout"
      intervalMs := (g.value? "interval-ms").bind count?
      unavailable := g.has "unavailable"
      version := g.value? "ip-version" } }

end Given

/-- The names of the commands. -/
def commandNames : List String := ["tokens", "check", "match", "wait"]

/-- The command with the name and the arguments. -/
def commandOf (name : String) (args : List String) : Except Stop Command :=
  match name with
  | "tokens" => do
    let g ← readArguments [fieldOption, formatOption] {} args
    return .tokens (← g.query) (g.values "field") g.format
  | "check" => do
    let g ← readArguments [fieldOption] {} args
    return .check (← g.query) (g.values "field")
  | "match" => do
    let g ← readArguments [fieldOption, { name := "pool" }, formatOption] {} args
    return .assign (← g.query) (g.values "field") (← Given.require (g.value? "pool")) g.format
  | "wait" => do
    let g ← readArguments waitOptions {} args
    return .wait (← g.waitArguments)
  | _ => .error .misuse

/-- The command that the arguments of the program ask for. -/
def Command.ofArguments (args : List String) : Except Stop Command :=
  match args with
  | [] => .error .misuse
  | "--help" :: _ => .error .help
  | "--version" :: _ => .error .version
  | "help" :: names =>
    .error (match names with
      | [] => .help
      | [name] => if name == "help" || commandNames.contains name then .help else .misuse
      | _ => .misuse)
  | arg :: args =>
    match arg.toList with
    | '-' :: 'h' :: _ => .error .help
    | '-' :: 'V' :: _ => .error .version
    | _ => commandOf arg args

end SlotQuery.Cli
