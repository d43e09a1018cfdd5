import SlotQuery.Text.Blank
import SlotQuery.Text.Word

/-!
# Sets of characters

What one position of a pattern may read, as a term over a few basic sets. `contains` decides
membership; the Boolean operations and the closure under case are terms of their own, so that a
class is never spelt out character by character.
-/

namespace SlotQuery

open Text

/-- A set of characters. -/
inductive CharSet where
  | anything
  | range (first last : Char)
  | digit
  | blank
  | word
  /-- The characters equal to the given one up to case. -/
  | alike (c : Char)
  /-- The characters equal to a member of the set up to case. -/
  | anyCase (s : CharSet)
  | compl (s : CharSet)
  | union (s t : CharSet)
  | inter (s t : CharSet)
deriving Repr, DecidableEq

namespace CharSet

/-- The set holds the character. -/
def contains : CharSet → Char → Bool
  | anything, _ => true
  | range first last, c => first ≤ c && c ≤ last
  | digit, c => isDigit c
  | blank, c => isBlank c
  | word, c => isWord c
  | alike d, c => fold c == fold d
  | anyCase s, c => (Text.alike c).any s.contains
  | compl s, c => !s.contains c
  | union s t, c => s.contains c || t.contains c
  | inter s t, c => s.contains c && t.contains c

/-- The set without members. -/
def nothing : CharSet := compl anything

/-- The set of one character. -/
def only (c : Char) : CharSet := range c c

/-- The members of `s` that are not in `t`. -/
def diff (s t : CharSet) : CharSet := inter s (compl t)

/-- The members of exactly one of the two sets. -/
def symmDiff (s t : CharSet) : CharSet := union (diff s t) (diff t s)

/-- The complement, if asked for. -/
def negateIf (negated : Bool) (s : CharSet) : CharSet := if negated then compl s else s

/-- The closure under case, if asked for. -/
def anyCaseIf (foldCase : Bool) (s : CharSet) : CharSet := if foldCase then anyCase s else s

/-- The set of one character, of either case if asked for. -/
def literal (foldCase : Bool) (c : Char) : CharSet := if foldCase then alike c else only c

/-- The union of closed ranges. -/
def ofRanges (ranges : List (Char × Char)) : CharSet :=
  ranges.foldr (fun r s => union (range r.1 r.2) s) nothing

/-- The class named within `[:` and `:]`. -/
def named? (name : String) : Option CharSet :=
  match name with
  | "alnum" => some (ofRanges [('0', '9'), ('A', 'Z'), ('a', 'z')])
  | "alpha" => some (ofRanges [('A', 'Z'), ('a', 'z')])
  | "ascii" => some (ofRanges [('\x00', '\x7f')])
  | "blank" => some (ofRanges [('\t', '\t'), (' ', ' ')])
  | "cntrl" => some (ofRanges [('\x00', '\x1f'), ('\x7f', '\x7f')])
  | "digit" => some (ofRanges [('0', '9')])
  | "graph" => some (ofRanges [('!', '~')])
  | "lower" => some (ofRanges [('a', 'z')])
  | "print" => some (ofRanges [(' ', '~')])
  | "punct" => some (ofRanges [('!', '/'), (':', '@'), ('[', '\x60'), ('\x7b', '~')])
  | "space" => some (ofRanges [('\t', '\r'), (' ', ' ')])
  | "upper" => some (ofRanges [('A', 'Z')])
  | "word" => some (ofRanges [('0', '9'), ('A', 'Z'), ('_', '_'), ('a', 'z')])
  | "xdigit" => some (ofRanges [('0', '9'), ('A', 'F'), ('a', 'f')])
  | _ => none

end CharSet

end SlotQuery
