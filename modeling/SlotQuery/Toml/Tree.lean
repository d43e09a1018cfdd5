import SlotQuery.Toml.Basic

/-!
# Growing a TOML table

A table of a document grows statement by statement. A header opens a table once, dotted keys add only
to tables that dotted keys made, and a value is never replaced.
-/

namespace SlotQuery.Toml

/-- How a table came to be. -/
inductive Origin where
  /-- By the header of a table within it. -/
  | implied
  /-- By a dotted key. -/
  | dotted
  /-- By its own header. -/
  | header
deriving DecidableEq, Repr

/-- What stands under a key of a table that still grows. -/
inductive Node where
  | value (v : Toml)
  | table (origin : Origin) (entries : List (String × Node))
  /-- A list of tables, of which the last one grows. -/
  | tables (closed : List (List (String × Node))) (last : List (String × Node))

/-- A table that still grows. -/
abbrev Branches := List (String × Node)

namespace Branches

/-- The table with what `grow` makes of the entry under the key. -/
def update (t : Branches) (key : String) (grow : Option Node → Option Node) : Option Branches :=
  match t with
  | [] => (grow none).map fun n => [(key, n)]
  | e :: es =>
    if e.1 = key then (grow (some e.2)).map fun n => (key, n) :: es
    else (update es key grow).map (e :: ·)

/-- Grows the table at the end of a path of headers; missing tables are made. -/
def within (grow : Branches → Option Branches) : List String → Branches → Option Branches
  | [], t => grow t
  | key :: keys, t =>
    update t key fun
      | none => (within grow keys []).map (.table .implied)
      | some (.table origin u) => (within grow keys u).map (.table origin)
      | some (.tables closed last) => (within grow keys last).map (.tables closed)
      | some (.value _) => none

/-- Opens the table under the key. -/
def openTable (key : String) (t : Branches) : Option Branches :=
  update t key fun
    | none => some (.table .header [])
    | some (.table .implied u) => some (.table .header u)
    | _ => none

/-- Adds a table to the list of tables under the key. -/
def addTable (key : String) (t : Branches) : Option Branches :=
  update t key fun
    | none => some (.tables [] [])
    | some (.tables closed last) => some (.tables (closed ++ [last]) [])
    | _ => none

/-- Adds a value under a dotted key, whose table in front of `key` has to be one that dotted keys
made. -/
def addValue (key : String) (v : Toml) : List String → Branches → Option Branches
  | [], t => update t key fun
    | none => some (.value v)
    | some _ => none
  | [parent], t => update t parent fun
    | none => some (.table .dotted [(key, .value v)])
    | some (.table .dotted u) => (addValue key v [] u).map (.table .dotted)
    | _ => none
  | parent :: parents, t => update t parent fun
    | none => (addValue key v parents []).map (.table .dotted)
    | some (.table .header _) => none
    | some (.table origin u) => (addValue key v parents u).map (.table origin)
    | some (.tables closed last) => (addValue key v parents last).map (.tables closed)
    | some (.value _) => none

end Branches

mutual

/-- The finished value. -/
def Node.toToml : Node → Toml
  | .value v => v
  | .table _ t => .table (entries t)
  | .tables closed last => .list (tables closed ++ [.table (entries last)])

/-- The finished entries of a table. -/
def entries : List (String × Node) → List (String × Toml)
  | [] => []
  | (key, n) :: t => (key, n.toToml) :: entries t

/-- The finished tables of a list. -/
def tables : List (List (String × Node)) → List Toml
  | [] => []
  | t :: ts => .table (entries t) :: tables ts

end

end SlotQuery.Toml
