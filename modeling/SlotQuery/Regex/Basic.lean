import SlotQuery.Regex.CharSet

/-!
# Regular expressions

Patterns over characters with anchors. An anchor reads nothing and looks at the characters on both
sides of its position. A repetition carries its least and, if bounded, its greatest count.
-/

namespace SlotQuery

open Text

/-- A condition on a position of a text. -/
inductive Anchor where
  | textStart
  | textEnd
  /-- The start of a line; `cr` counts a carriage return as a line end as well. -/
  | lineStart (cr : Bool)
  /-- The end of a line; `cr` counts a carriage return as a line end as well. -/
  | lineEnd (cr : Bool)
  | wordEdge
  | noWordEdge
  | wordStart
  | wordEnd
  | afterNoWord
  | beforeNoWord
deriving Repr, DecidableEq

namespace Anchor

/-- The anchor holds between the characters `before` and `after`, absent at the ends of the text. -/
def holds (a : Anchor) (before after : Option Char) : Bool :=
  let wordBefore := before.any isWord
  let wordAfter := after.any isWord
  match a with
  | textStart => before.isNone
  | textEnd => after.isNone
  | lineStart false => before.isNone || before == some '\n'
  | lineStart true =>
    before.isNone || before == some '\n' || (before == some '\r' && after != some '\n')
  | lineEnd false => after.isNone || after == some '\n'
  | lineEnd true =>
    after.isNone || after == some '\r' || (after == some '\n' && before != some '\r')
  | wordEdge => wordBefore != wordAfter
  | noWordEdge => wordBefore == wordAfter
  | wordStart => !wordBefore && wordAfter
  | wordEnd => wordBefore && !wordAfter
  | afterNoWord => !wordBefore
  | beforeNoWord => !wordAfter

end Anchor

/-- A regular expression. -/
inductive Regex where
  | empty
  | chars (s : CharSet)
  | anchor (a : Anchor)
  | seq (r s : Regex)
  | alt (r s : Regex)
  /-- At least `least` and, if `most` is given, at most that many times `r`. -/
  | rep (r : Regex) (least : Nat) (most : Option Nat)
deriving Repr, DecidableEq

namespace Regex

/-- One after the other. -/
def sequence (rs : List Regex) : Regex := rs.foldr seq empty

/-- The text `cs` itself, of either case if asked for. -/
def literal (foldCase : Bool) (cs : List Char) : Regex :=
  sequence (cs.map fun c => chars (.literal foldCase c))

end Regex

end SlotQuery
