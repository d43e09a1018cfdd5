import SlotQuery.Regex.Match
import SlotQuery.Regex.Parser

/-!
# Comparison operators

The comparisons of a condition, the marks they are written with, and the pattern that each makes of
its value. All but `pattern` take the value literally; all compare without regard to case.
-/

namespace SlotQuery

/-- A comparison of a field with a value. -/
inductive Operator where
  | equals
  | notEquals
  | word
  | endsWith
  | startsWith
  | contains
  | pattern
deriving DecidableEq, Repr

namespace Operator

/-- The character in front of `=`. -/
def mark : Operator → Char
  | equals => '='
  | notEquals => '!'
  | word => '~'
  | endsWith => '$'
  | startsWith => '^'
  | contains => '*'
  | pattern => '/'

/-- The operator with the mark. -/
def ofMark? : Char → Option Operator
  | '=' => some equals
  | '!' => some notEquals
  | '~' => some word
  | '$' => some endsWith
  | '^' => some startsWith
  | '*' => some contains
  | '/' => some pattern
  | _ => none

/-- The operator written as the text in front of `=`; nothing there means equality. -/
def ofSymbol? (symbol : String) : Option Operator :=
  match symbol.toList with
  | [] => some equals
  | [c] => ofMark? c
  | _ => none

/-- The mark as a text. -/
def symbol (op : Operator) : String := String.singleton op.mark

theorem ofMark?_mark (op : Operator) : ofMark? op.mark = some op := by
  cases op <;> rfl

theorem mark_of_ofMark? {c : Char} {op : Operator} (h : ofMark? c = some op) : op.mark = c := by
  unfold ofMark? at h
  split at h <;> first | (cases h; rfl) | cases h

/-- The pattern that a field is searched for. A value that is no pattern has none. The limit on the size of
a compiled pattern, which makes very long values invalid too, is not modelled. -/
def matcher? (op : Operator) (value : String) : Option Regex :=
  let v := Regex.literal true value.toList
  let start := Regex.anchor .textStart
  let stop := Regex.anchor .textEnd
  let blank := Regex.chars .blank
  match op with
  | equals | notEquals => some (.seq start (.seq v stop))
  | word => some (.seq (.alt start blank) (.seq v (.alt blank stop)))
  | endsWith => some (.seq v stop)
  | startsWith => some (.seq start v)
  | contains => some v
  | pattern => Regex.parse? { foldCase := true, dotAll := true } value.toList

/-- The verdict of the comparison, from whether the pattern was found. -/
def verdict (op : Operator) (found : Bool) : Bool :=
  match op with
  | notEquals => !found
  | _ => found

end Operator

end SlotQuery
