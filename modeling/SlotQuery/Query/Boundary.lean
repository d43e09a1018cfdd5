import SlotQuery.Query.FieldSet
import SlotQuery.Query.Operator
import SlotQuery.Text.Blank

/-!
# Where a condition ends

Nothing delimits the value of a condition: it may hold `]` and text that looks like a condition. A
`]` is the closing one when white space and `)` behind it lead to the end of the query, or when a
keyword or white space leads, through any run of white space, `(` and `NOT`, to the start of a
condition on a known field. A `NOT` of that run stands behind white space or `(`. The first `]` of
this kind closes the condition.
-/

namespace SlotQuery

open Text

/-- The names that may start a condition, as characters. Without known fields it is the empty name,
so that a condition may start with its comparison. -/
def FieldSet.starts (fields : FieldSet) : List (List Char) :=
  if fields.names.isEmpty then [[]] else fields.names.map String.toList

namespace Boundary

/-- A comparison starts here: `=`, with at most one mark in front of it. -/
def startsComparison : List Char → Bool
  | '=' :: _ => true
  | c :: '=' :: _ => (Operator.ofMark? c).isSome
  | _ => false

/-- A condition on one of the names starts here. -/
def startsCondition (names : List (List Char)) : List Char → Bool
  | '[' :: cs => names.any fun name => name.isPrefixOf cs && startsComparison (cs.drop name.length)
  | _ => false

/-- White space or an opening parenthesis: what may stand in front of `NOT`. -/
def isSpacer (c : Char) : Bool := isBlank c || c == '('

/-- A run of white space, `(` and `NOT` leads to a condition. A `NOT` is followed by the condition or
by white space or `(`. -/
def leads (names : List (List Char)) : List Char → Bool
  | [] => false
  | 'N' :: 'O' :: 'T' :: cs =>
    startsCondition names cs ||
      match cs with
      | [] => false
      | c :: cs => isSpacer c && leads names cs
  | c :: cs => if isSpacer c then leads names cs else startsCondition names (c :: cs)

/-- What follows a keyword leads to a condition, with or without a gap. -/
def leadsOn (names : List (List Char)) : List Char → Bool
  | [] => false
  | c :: cs => startsCondition names (c :: cs) || (isSpacer c && leads names cs)

/-- The text behind a `]` makes it the closing one; `gap` tells that white space directly precedes the
text. -/
def closes (names : List (List Char)) (gap : Bool) : List Char → Bool
  | [] => true
  | c :: cs =>
    if isBlank c then closes names true cs
    else if c = ')' then closes names false cs
    else
      (gap && leads names (c :: cs)) ||
        match c :: cs with
        | 'A' :: 'N' :: 'D' :: rest => leadsOn names rest
        | 'O' :: 'R' :: rest => leadsOn names rest
        | _ => false

/-- The text in front of the first closing `]`, and the text behind it. -/
def cut? (names : List (List Char)) : List Char → Option (List Char × List Char)
  | [] => none
  | c :: cs =>
    if c = ']' && closes names false cs then some ([], cs)
    else (cut? names cs).map fun (value, rest) => (c :: value, rest)

theorem cut?_eq {names : List (List Char)} {cs value rest : List Char}
    (h : cut? names cs = some (value, rest)) : cs = value ++ ']' :: rest := by
  induction cs generalizing value with
  | nil => simp [cut?] at h
  | cons c cs ih =>
    unfold cut? at h
    split at h
    · next hc =>
      simp only [Bool.and_eq_true, decide_eq_true_eq] at hc
      cases h
      simp [hc.1]
    · obtain ⟨⟨value', rest'⟩, hcut, heq⟩ := Option.map_eq_some_iff.1 h
      cases heq
      simp [ih hcut]

end Boundary

/-- The offset, in bytes of the text behind an opening bracket, of the `]` that closes its condition.
-/
def FieldSet.conditionEnd? (fields : FieldSet) (text : String) : Option Nat :=
  (Boundary.cut? fields.starts text.toList).map fun (value, _) =>
    (String.ofList value).utf8ByteSize

end SlotQuery
