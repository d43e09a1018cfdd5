import SlotQuery.Json.Basic

/-!
# Writing JSON

`render` writes a value on one line without white space, `pretty` one item or member to a line,
indented by two spaces a level; an empty list or object stays on its line.
-/

namespace SlotQuery.Json

/-- The lower-case hexadecimal digit. -/
def hexDigit (n : Nat) : Char := (Nat.digitChar n).toLower

/-- A character of a text as written between quotes. -/
def escapeChar (c : Char) : List Char :=
  match c with
  | '"' => ['\\', '"']
  | '\\' => ['\\', '\\']
  | '\x08' => ['\\', 'b']
  | '\x0c' => ['\\', 'f']
  | '\n' => ['\\', 'n']
  | '\r' => ['\\', 'r']
  | '\t' => ['\\', 't']
  | c =>
    if c.toNat < 0x20 then ['\\', 'u', '0', '0', hexDigit (c.toNat / 16), hexDigit (c.toNat % 16)]
    else [c]

/-- A text in quotes. -/
def quote (s : String) : String :=
  "\"" ++ String.ofList (s.toList.flatMap escapeChar) ++ "\""

/-- The form of a value that is neither list nor object. -/
def scalar : Json → String
  | null => "null"
  | bool true => "true"
  | bool false => "false"
  | int n => toString n
  | real written => written
  | text s => quote s
  | _ => "null"

mutual

/-- The value on one line. -/
def render : Json → String
  | list js => "[" ++ String.intercalate "," (renderItems js) ++ "]"
  | object ms => "\x7b" ++ String.intercalate "," (renderMembers ms) ++ "\x7d"
  | j => scalar j

/-- The items of a list, each on one line. -/
def renderItems : List Json → List String
  | [] => []
  | j :: js => render j :: renderItems js

/-- The members of an object, each on one line. -/
def renderMembers : List (String × Json) → List String
  | [] => []
  | (key, j) :: ms => (quote key ++ ":" ++ render j) :: renderMembers ms

end

/-- A line break and the indentation of the level. -/
def newLine (level : Nat) : String := "\n" ++ String.ofList (List.replicate (2 * level) ' ')

/-- Parts between brackets, one to a line at the level, unless there are none. -/
def block (opening closing : String) (level : Nat) (parts : List String) : String :=
  if parts.isEmpty then opening ++ closing
  else
    opening ++ String.intercalate "," (parts.map (newLine (level + 1) ++ ·)) ++ newLine level ++
      closing

mutual

/-- The value at a level of indentation. -/
def prettyAt (level : Nat) : Json → String
  | list js => block "[" "]" level (prettyItems (level + 1) js)
  | object ms => block "\x7b" "\x7d" level (prettyMembers (level + 1) ms)
  | j => scalar j

/-- The items of a list at a level of indentation. -/
def prettyItems (level : Nat) : List Json → List String
  | [] => []
  | j :: js => prettyAt level j :: prettyItems level js

/-- The members of an object at a level of indentation. -/
def prettyMembers (level : Nat) : List (String × Json) → List String
  | [] => []
  | (key, j) :: ms => (quote key ++ ": " ++ prettyAt level j) :: prettyMembers level ms

end

/-- The value over several lines. -/
def pretty (j : Json) : String := prettyAt 0 j

end SlotQuery.Json
