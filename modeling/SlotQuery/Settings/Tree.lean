import SlotQuery.Text.Case
import SlotQuery.Toml.Basic

/-!
# Layered tables

A table of settings, with others laid over it. A table laid over a table adds and replaces entry by
entry, anything else replaces what was there. Keys are the same in lower and upper case.
-/

namespace SlotQuery.Settings

open Text

/-- The entries of a table. -/
abbrev Table := List (String × Toml)

namespace Table

/-- The value under the key. -/
def get? (t : Table) (key : String) : Option Toml := t.lookup key

/-- The table with the value under the key, in place of the one that was there. -/
def put (t : Table) (key : String) (v : Toml) : Table :=
  match t with
  | [] => [(key, v)]
  | e :: es => if e.1 = key then (key, v) :: es else e :: put es key v

@[simp] theorem get?_nil (key : String) : get? [] key = none := rfl

@[simp] theorem get?_put (t : Table) (key k : String) (v : Toml) :
    (t.put key v).get? k = if k = key then some v else t.get? k := by
  induction t with
  | nil => by_cases h : k = key <;> grind [put, get?]
  | cons e es ih => by_cases h : k = key <;> grind [put, get?]

/-- The entries of a value that is a table; none of any other. -/
def ofValue? : Option Toml → Table
  | some (.table t) => t
  | _ => []

end Table

mutual

/-- The value laid over one that may be there. A table without entries leaves it as it is. -/
def laidOver (old : Option Toml) : Toml → Toml
  | .table [] => old.getD (.table [])
  | .table (e :: es) => .table (overlay (Table.ofValue? old) (e :: es))
  | v => v

/-- The table with the entries of another one laid over it. -/
def overlay (t : Table) : List (String × Toml) → Table
  | [] => t
  | (key, v) :: es => overlay (t.put (lower key) (laidOver (t.get? (lower key)) v)) es

end

/-- The keys of a path such as `wait.timeout`. -/
def path? (text : String) : Option (List String) :=
  let keys := text.toList.splitOn '.'
  if keys.all fun key => !key.isEmpty && key.all isPathChar then some (keys.map String.ofList)
  else none
where
  /-- A character of a key in a path. -/
  isPathChar (c : Char) : Bool := c.isAlphanum || c == '_' || c == '-'

/-- The value within tables under the keys of a path. -/
def nest (v : Toml) : List String → Toml
  | [] => v
  | key :: keys => .table [(key, nest v keys)]

/-- The table with a value laid over what is at the path. -/
def set (t : Table) (path : List String) (v : Toml) : Table := overlay t (Table.ofValue? (nest v path))

/-- The table of a file as it counts: a key that reads as a path stands for the tables along it. -/
def spread (entries : List (String × Toml)) : List (String × Toml) :=
  entries.flatMap fun e => Table.ofValue? (nest e.2 ((path? e.1).getD [e.1]))

end SlotQuery.Settings
