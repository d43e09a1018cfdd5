import SlotQuery.Query.Grammar
import SlotQuery.Query.Lexer

/-!
# Selector sets

A query spells the selectors of its slots one after the other. Expressions that stand side by side
without a keyword between them are selectors of their own.
-/

namespace SlotQuery

/-- The selectors of a query, one for each slot. -/
structure SelectorSet where
  selectors : List Selector
deriving DecidableEq, Repr

namespace SelectorSet

/-- The expressions of the tokens up to the end of input. -/
def readAll (fields : FieldSet) (ts : List Token) : Except QueryError (List Selector) :=
  match ts with
  | [] => .ok []
  | .endOfInput :: _ => .ok []
  | t :: ts =>
    match _ : readExpression fields (t :: ts) with
    | (.error e, _) => .error e
    | (.ok s, rest) =>
      match readAll fields rest with
      | .error e => .error e
      | .ok ss => .ok (s :: ss)
termination_by ts.length
decreasing_by
  have hlen := readExpression_advances fields t ts
  rw [‹readExpression fields (t :: ts) = _›] at hlen
  exact Nat.lt_succ_of_le hlen

theorem readAll_of_end {fields : FieldSet} {ts : List Token} (h : Token.peek ts = .endOfInput) :
    readAll fields ts = .ok [] := by
  cases ts with
  | nil => rw [readAll]
  | cons t ts => rw [show t = .endOfInput from h, readAll]

theorem readAll_of_ok {fields : FieldSet} {ts rest : List Token} {s : Selector}
    (h : readExpression fields ts = (.ok s, rest)) :
    readAll fields ts = (readAll fields rest).map (s :: ·) := by
  fun_cases readAll fields ts with
  | case1 | case2 => cases h
  | case3 t us _ e rest' hread => cases hread.symm.trans h
  | case4 t us _ s' rest' hread e hall =>
    obtain ⟨rfl, rfl⟩ : s' = s ∧ rest' = rest := by simpa using hread.symm.trans h
    rw [hall]
    rfl
  | case5 t us _ s' rest' hread ss hall =>
    obtain ⟨rfl, rfl⟩ : s' = s ∧ rest' = rest := by simpa using hread.symm.trans h
    rw [hall]
    rfl

theorem readAll_of_error {fields : FieldSet} {ts rest : List Token} {e : QueryError}
    (hts : Token.peek ts ≠ .endOfInput) (h : readExpression fields ts = (.error e, rest)) :
    readAll fields ts = .error e := by
  fun_cases readAll fields ts with
  | case1 | case2 => exact absurd rfl hts
  | case3 t us _ e' rest' hread =>
    obtain ⟨rfl, -⟩ : e' = e ∧ rest' = rest := by simpa using hread.symm.trans h
    rfl
  | case4 t us _ s' rest' hread | case5 t us _ s' rest' hread => cases hread.symm.trans h

/-- The selectors that the query spells over the known fields. -/
def compile (fields : FieldSet) (query : String) : Except QueryError SelectorSet :=
  match tokenize fields query with
  | .error e => .error e
  | .ok ts => (readAll fields ts).map SelectorSet.mk

/-- The number of slots. -/
def size (set : SelectorSet) : Nat := set.selectors.length

/-- The selector of a slot. -/
def get? (set : SelectorSet) (slot : Nat) : Option Selector := set.selectors[slot]?

/-- The canonical text of the set. -/
def render (set : SelectorSet) : String :=
  String.intercalate " " (set.selectors.map Selector.render)

/-- The answer of every selector for one candidate. -/
def evaluate (set : SelectorSet) (candidate : Attributes) : List Bool :=
  set.selectors.map (·.accepts candidate)

end SelectorSet

end SlotQuery
