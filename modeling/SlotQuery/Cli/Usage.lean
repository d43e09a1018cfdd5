import SlotQuery.Cli.Run

/-!
# Usage

The texts about the program itself, and how a stop that is no command ends.
-/

namespace SlotQuery.Cli

/-- The name of the program. -/
def programName : String := "nodesel"

/-- The name and version of the program. -/
def versionLine : String := programName ++ " 0.1.0\n"

/-- How the program is called. -/
def usage : String :=
  "Compile node selector queries and wait for matching network members\n\n" ++
    "Usage:\n" ++
    "  nodesel tokens <query> [-f <field>]... [--format json|yaml]\n" ++
    "  nodesel check <query> [-f <field>]...\n" ++
    "  nodesel match <query> --pool <file> [-f <field>]... [--format json|yaml]\n" ++
    "  nodesel wait <query> --members <file> --network <file> [--self-id <id> [--ip <address>]...]\n" ++
    "               [-c <file>] [--timeout <seconds>] [--interval-ms <number>] [--unavailable]\n" ++
    "               [--ip-version 4|6|4?|6?]\n"

/-- What the program leaves behind: its exit code and what it wrote. -/
structure Ending where
  exitCode : Nat
  output : String
  error : String
deriving DecidableEq, Repr

/-- How the program ends without a command. -/
def Stop.ending : Stop → Ending
  | .help => ⟨0, usage, ""⟩
  | .version => ⟨0, versionLine, ""⟩
  | .misuse => ⟨2, "", usage⟩

/-- How the program ends with the result of a command. -/
def endingOf : Except Failure String → Ending
  | .ok output => ⟨0, output, ""⟩
  | .error e => ⟨e.exitCode, "", "Error: " ++ e.message ++ "\n"⟩

end SlotQuery.Cli
