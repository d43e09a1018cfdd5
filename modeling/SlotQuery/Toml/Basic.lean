import SlotQuery.Decimal.Real64

/-!
# TOML values

The values of a TOML document. A date or a time is kept as its text, and a table as its entries,
whose keys are distinct.
-/

namespace SlotQuery

/-- A TOML value. -/
inductive Toml where
  | text (s : String)
  | int (n : Int)
  | real (x : Real64)
  | bool (b : Bool)
  /-- A date, a time or both, in their usual form. -/
  | moment (written : String)
  | list (items : List Toml)
  | table (entries : List (String × Toml))
deriving Repr, Inhabited

namespace Toml

/-- White space within a line. -/
def isGap (c : Char) : Bool := c == ' ' || c == '\t'

/-- The line from its next token on. -/
def skipGap (cs : List Char) : List Char := cs.dropWhile isGap

/-- A character that may stand in a text or a comment: anything but control characters other than the
tab. -/
def isPlainChar (c : Char) : Bool := c == '\t' || (0x20 ≤ c.toNat && c.toNat ≠ 0x7F)

/-- What follows the line break at the start of the document. -/
def lineBreak? : List Char → Option (List Char)
  | '\n' :: cs => some cs
  | '\r' :: '\n' :: cs => some cs
  | _ => none

/-- The document from its next token on, line breaks and comments passed over. `commented` says that
it starts within a comment. -/
def skipLines (commented : Bool) : List Char → List Char
  | [] => []
  | c :: cs =>
    if commented && isPlainChar c then skipLines true cs
    else if isGap c || (lineBreak? (c :: cs)).isSome then skipLines false cs
    else if c == '#' then skipLines true cs
    else c :: cs

/-- What follows the rest of a line that holds nothing but a comment; the last line needs no break. -/
def endLine? (cs : List Char) : Option (List Char) :=
  let cs := match skipGap cs with
    | '#' :: cs => cs.dropWhile isPlainChar
    | cs => cs
  if cs.isEmpty then some [] else lineBreak? cs

end Toml

end SlotQuery
