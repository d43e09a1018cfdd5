import SlotQuery.Query.Error
import SlotQuery.Query.FieldSet
import SlotQuery.Query.Operator
import SlotQuery.Text.Blank
import SlotQuery.TextMap

/-!
# Conditions

The leaf of a selector, `[field<op>=value]`. `Condition.compile` splits the text at its first
comparison and checks the field; `accepts` tests a candidate, which answers the empty text for a
field that it does not carry.
-/

namespace SlotQuery

open Text

/-- The fields of a candidate and their values. -/
abbrev Attributes := TextMap String

/-- A compiled comparison; its pattern is the one that the operator makes of the value. -/
structure Condition where
  field : String
  operator : Operator
  value : String
  matcher : Regex
  matcher_eq : operator.matcher? value = some matcher
deriving Repr

namespace Condition

theorem ext_iff {a b : Condition} :
    a = b ↔ a.field = b.field ∧ a.operator = b.operator ∧ a.value = b.value := by
  constructor
  · rintro rfl
    exact ⟨rfl, rfl, rfl⟩
  · obtain ⟨fa, oa, va, ma, ha⟩ := a
    obtain ⟨fb, ob, vb, mb, hb⟩ := b
    rintro ⟨hf, ho, hv⟩
    simp only at hf ho hv
    subst hf ho hv
    have hm : ma = mb := Option.some.inj (ha.symm.trans hb)
    subst hm
    rfl

instance : DecidableEq Condition := fun _ _ => decidable_of_iff' _ ext_iff

/-- The condition made of its parts. -/
def make (field : String) (operator : Operator) (value : String) : Except QueryError Condition :=
  match h : operator.matcher? value with
  | some matcher => .ok ⟨field, operator, value, matcher, h⟩
  | none => .error (.invalidPattern value)

/-- The first comparison of a text: what precedes it, its operator and all that follows. A mark
directly in front of `=` belongs to the comparison, and no line feed may precede it. -/
def splitComparison : List Char → Option (List Char × Operator × List Char)
  | [] => none
  | c :: cs =>
    match Operator.ofMark? c, cs with
    | some op, '=' :: value => some ([], op, value)
    | _, _ =>
      if c = '=' then some ([], .equals, cs)
      else if c = '\n' then none
      else (splitComparison cs).map fun (field, op, value) => (c :: field, op, value)

/-- The text between the brackets, as far as they are there, without leading white space. -/
def body (text : List Char) : List Char :=
  let text := if text.head? = some '[' then text.tail else text
  trimLeft (if text.getLast? = some ']' then text.dropLast else text)

/-- The condition that the text spells over the known fields. -/
def compile (fields : FieldSet) (text : String) : Except QueryError Condition :=
  let b := body text.toList
  match splitComparison b with
  | none => .error (.invalidCondition (String.ofList b))
  | some (field, op, value) =>
    let field := String.ofList (trimBoth field)
    if fields.contains field then make field op (String.ofList value)
    else .error (.unknownField field)

/-- The canonical text, its operator always written out. -/
def render (c : Condition) : String :=
  "[" ++ c.field ++ c.operator.symbol ++ "=" ++ c.value ++ "]"

/-- The candidate meets the condition. -/
def accepts (c : Condition) (candidate : Attributes) : Bool :=
  c.operator.verdict (c.matcher.foundIn ((candidate.get? c.field).getD "").toList)

end Condition

end SlotQuery
