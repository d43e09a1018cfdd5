import SlotQuery.Query.Condition

/-!
# Selectors

A Boolean test over the attributes of one candidate, its canonical text, and the conditions in it.
-/

namespace SlotQuery

/-- A test of a candidate. -/
inductive Selector where
  | condition (c : Condition)
  | and (left right : Selector)
  | or (left right : Selector)
  | not (s : Selector)
deriving DecidableEq, Repr

namespace Selector

/-- The candidate passes the test. -/
def accepts : Selector → Attributes → Bool
  | condition c, candidate => c.accepts candidate
  | and left right, candidate => left.accepts candidate && right.accepts candidate
  | or left right, candidate => left.accepts candidate || right.accepts candidate
  | not s, candidate => !s.accepts candidate

/-- The conditions from left to right. -/
def conditions : Selector → List Condition
  | condition c => [c]
  | and left right | or left right => left.conditions ++ right.conditions
  | not s => s.conditions

/-- The canonical text, with parentheses around every conjunction and disjunction. -/
def render : Selector → String
  | condition c => c.render
  | and left right => "(" ++ left.render ++ " AND " ++ right.render ++ ")"
  | or left right => "(" ++ left.render ++ " OR " ++ right.render ++ ")"
  | not s => "NOT " ++ s.render

end Selector

end SlotQuery
