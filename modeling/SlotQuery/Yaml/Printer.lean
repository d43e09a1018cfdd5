import SlotQuery.Yaml.Scalar

/-!
# Lists in YAML

A list written one item to a line: nothing, a text, a text with a tag, or a map of texts with one
entry to a line.
-/

namespace SlotQuery.Yaml

/-- An item of a list. -/
inductive Item where
  | null
  | text (s : String)
  /-- A text of the kind that the tag names. -/
  | tagged (tag : String) (s : String)
  | map (entries : List (String × String))
deriving DecidableEq, Repr

/-- The written form with a line break at its end, which a literal block may have already. -/
def endLine (written : String) : String :=
  if written.toList.getLast?.any isBreak then written else written ++ "\n"

/-- A key that fits on a line in front of its value: of one line and up to 128 bytes. -/
def isSimpleKey (key : String) : Bool := !key.toList.any isBreak && key.utf8ByteSize ≤ 128

/-- An entry of a map that is indented by two spaces. -/
def entry (key value : String) : String :=
  if isSimpleKey key then endLine (scalar 4 key ++ ": " ++ scalar 4 value)
  else endLine ("? " ++ scalar 4 key) ++ endLine ("  : " ++ scalar 4 value)

/-- An item with the dash in front. -/
def Item.render : Item → String
  | null => "- null\n"
  | text s => endLine ("- " ++ scalar 2 s)
  | tagged tag s => endLine ("- !" ++ tag ++ " " ++ scalar 2 s)
  | map [] => "- \x7b\x7d\n"
  | map entries => "- " ++ String.intercalate "  " (entries.map fun e => entry e.1 e.2)

/-- A list. -/
def render (items : List Item) : String :=
  if items.isEmpty then "[]\n" else String.join (items.map Item.render)

end SlotQuery.Yaml
