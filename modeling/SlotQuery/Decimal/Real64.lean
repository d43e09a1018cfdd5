import SlotQuery.Decimal.Shortest

/-!
# Signed and special numbers

A binary number with its sign, an infinity or no number at all, with the text of such a value and the
unsigned integer nearest to it.
-/

namespace SlotQuery

/-- A value of 64-bit floating point arithmetic. -/
inductive Real64 where
  | finite (negative : Bool) (x : Binary64)
  | infinite (negative : Bool)
  | undefined
deriving DecidableEq, Repr

namespace Real64

/-- The sign in front of a text. -/
def sign (negative : Bool) : String := if negative then "-" else ""

/-- The text of the value. -/
def render : Real64 → String
  | finite negative x => sign negative ++ x.render
  | infinite negative => sign negative ++ "inf"
  | undefined => "NaN"

/-- The nearest of the integers from zero to `bound`, a half going up. -/
def toNat (bound : Nat) : Real64 → Nat
  | finite true _ | infinite true | undefined => 0
  | finite false x =>
    let (num, den) := x.toFraction
    min bound ((2 * num + den) / (2 * den))
  | infinite false => bound

end Real64

end SlotQuery
