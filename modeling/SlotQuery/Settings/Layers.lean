import SlotQuery.Settings.Basic
import SlotQuery.Toml.Parser

/-!
# Layers of settings

Files and single values laid over the defaults. Values win over files wherever they stand, and of two
files or two values the later one wins. Only what comes out in the end has to be valid.
-/

namespace SlotQuery

/-- Settings given on a command line. -/
structure Flags where
  timeout : Option String := none
  intervalMs : Option Nat := none
  unavailable : Bool := false
  version : Option String := none
deriving DecidableEq, Repr

namespace Flags

/-- The greatest integer of a table. -/
def maxInteger : Nat := Int64.maxValue.toInt.toNat

/-- The values of the flags that were given, with their paths. -/
def values (f : Flags) : List (List String × Toml) :=
  (f.timeout.map fun s => (["wait", "timeout"], .text s)).toList ++
    (f.intervalMs.map fun n => (["wait", "interval_ms"], .int (min n maxInteger))).toList ++
    (if f.unavailable then [(["wait", "mode"], .text WaitMode.unavailable.render)] else []) ++
    (f.version.map fun s => (["fleet", "ip_version"], .text s)).toList

end Flags

namespace Settings

/-- Something laid over the defaults. A file that is not there has no content. -/
inductive Layer where
  | file (content : Option String)
  | optionalFile (content : Option String)
  | flags (f : Flags)
  | value (path : String) (v : Toml)

/-- The table in the content of a file. -/
def fileTable (content : String) : Except SettingsError Table :=
  match Toml.parse? content with
  | some entries => .ok (spread entries)
  | none => .error .malformedFile

/-- The table of a layer that is a file. -/
def Layer.table : Layer → Except SettingsError Table
  | file (some content) | optionalFile (some content) => fileTable content
  | file none => .error .missingFile
  | _ => .ok []

/-- The values of a layer that is not a file. -/
def Layer.values : Layer → Except SettingsError (List (List String × Toml))
  | flags f => .ok f.values
  | value path v =>
    match path? path with
    | some keys => .ok [(keys, v)]
    | none => .error (.invalidPath path)
  | _ => .ok []

/-- The table with the values laid over it. -/
def setAll (t : Table) (values : List (List String × Toml)) : Table :=
  values.foldl (fun t v => set t v.1 v.2) t

/-- The settings of the layers. -/
def ofLayers (layers : List Layer) : Except SettingsError Settings := do
  let values ← layers.mapM Layer.values
  let tables ← layers.mapM Layer.table
  ofTable (setAll (tables.foldl overlay defaults) values.flatten)

/-- The settings of a file, if one is named, and flags. -/
def load (file : Option (Option String)) (flags : Flags) : Except SettingsError Settings :=
  ofLayers ((file.map Layer.file).toList ++ [.flags flags])

end Settings

end SlotQuery
