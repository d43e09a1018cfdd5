import SlotQuery.Text.Digit
import SlotQuery.Settings.Tree
import SlotQuery.Wait.Options

/-!
# Values of settings

What a value of a table stands for. Counts may be written as texts and texts as numbers; a section may
be given as the list of its values in order.
-/

namespace SlotQuery.Settings

open Text

/-- The count that a text spells. -/
def countOfText? (s : String) : Option Nat :=
  let word := lower s
  if ["true", "on", "yes"].contains word then some 1
  else if ["false", "off", "no"].contains word then some 0
  else count? s

/-- The count that a value stands for. -/
def asCount? : Toml → Option Nat
  | .int n => if 0 ≤ n then some n.toNat else none
  | .real x => some (x.toNat (countLimit - 1))
  | .bool b => some (if b then 1 else 0)
  | .text s | .moment s => countOfText? s
  | .list _ | .table _ => none

/-- The text that a value stands for. -/
def asText? : Toml → Option String
  | .text s | .moment s => some s
  | .int n => some (toString n)
  | .real x => some x.render
  | .bool b => some (if b then "true" else "false")
  | .list _ | .table _ => none

/-- The mode that a value stands for: its name, or a table with the name as its only key. -/
def asMode? : Toml → Option WaitMode
  | .text s | .moment s => WaitMode.ofName? (lower s)
  | .table [(name, _)] => WaitMode.ofName? (lower name)
  | _ => none

/-- The values of a section under its keys, or in the order of the keys. -/
def section? (keys : List String) : Toml → Option (List Toml)
  | .table t => keys.mapM (Table.get? t)
  | .list vs => if keys.length ≤ vs.length then some (vs.take keys.length) else none
  | _ => none

end SlotQuery.Settings
