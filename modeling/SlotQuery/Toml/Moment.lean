import SlotQuery.Text.Digit
import SlotQuery.Toml.Basic

/-!
# Dates and times of TOML

A date `1979-05-27`, a time `07:32:00.5`, or both with `T` or a blank between them and perhaps an
offset from universal time. `moment?` gives the usual form: `T` in the middle, at most nine decimals of
a second without zeros at their end, `Z` or a signed offset.
-/

namespace SlotQuery.Toml

open Text

/-- A number of exactly `n` digits between the bounds, as written, and what follows. -/
def field? (n low high : Nat) (cs : List Char) : Option (List Char × List Char) :=
  let ds := cs.take n
  let value := ofDigits ds
  if ds.length = n ∧ ds.all Char.isDigit ∧ low ≤ value ∧ value ≤ high then some (ds, cs.drop n)
  else none

/-- What follows the character at the start of the document. -/
def after? (c : Char) (cs : List Char) : Option (List Char) :=
  if cs.head? = some c then some cs.tail else none

/-- The days of a month. -/
def daysIn (year month : Nat) : Nat :=
  if month = 2 then
    if year % 4 = 0 ∧ (year % 100 ≠ 0 ∨ year % 400 = 0) then 29 else 28
  else if month = 4 ∨ month = 6 ∨ month = 9 ∨ month = 11 then 30
  else 31

/-- A date at the start of the document. -/
def date? (cs : List Char) : Option (List Char × List Char) := do
  let (year, cs) ← field? 4 0 9999 cs
  let (month, cs) ← field? 2 1 12 (← after? '-' cs)
  let (day, cs) ← field? 2 1 (daysIn (ofDigits year) (ofDigits month)) (← after? '-' cs)
  return (year ++ '-' :: month ++ '-' :: day, cs)

/-- Nine decimals at most, without zeros at their end, behind a point unless none is left. -/
def decimals (ds : List Char) : List Char :=
  let ds := ((ds.take 9).reverse.dropWhile (· == '0')).reverse
  if ds.isEmpty then [] else '.' :: ds

/-- A time at the start of the document. -/
def time? (cs : List Char) : Option (List Char × List Char) := do
  let (hour, cs) ← field? 2 0 23 cs
  let (minute, cs) ← field? 2 0 59 (← after? ':' cs)
  let (second, cs) ← field? 2 0 60 (← after? ':' cs)
  let whole := hour ++ ':' :: minute ++ ':' :: second
  match cs with
  | '.' :: cs =>
    let (ds, rest) := cs.span Char.isDigit
    if ds.isEmpty then none else some (whole ++ decimals ds, rest)
  | cs => some (whole, cs)

/-- The offset that the characters spell; none at all means a local time. -/
def offset? (cs : List Char) : Option (List Char) :=
  match cs with
  | [] => some []
  | c :: cs =>
    if c = 'Z' ∨ c = 'z' then if cs.isEmpty then some ['Z'] else none
    else if c = '+' ∨ c = '-' then do
      let (hour, cs) ← field? 2 0 23 cs
      let (minute, cs) ← field? 2 0 59 (← after? ':' cs)
      let sign := if ofDigits (hour ++ minute) = 0 then '+' else c
      if cs.isEmpty then some (sign :: hour ++ ':' :: minute) else none
    else none

/-- The usual form of the date or time that the characters spell. -/
def moment? (cs : List Char) : Option (List Char) :=
  match date? cs with
  | some (date, []) => some date
  | some (date, c :: cs) =>
    if c = 'T' ∨ c = 't' ∨ c = ' ' then do
      let (time, cs) ← time? cs
      return date ++ 'T' :: time ++ (← offset? cs)
    else none
  | none =>
    match time? cs with
    | some (time, []) => some time
    | _ => none

end SlotQuery.Toml
