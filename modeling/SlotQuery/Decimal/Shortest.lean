import SlotQuery.Decimal.Numeral

/-!
# The shortest decimal form

The text of a binary number: the fewest digits that read back as the number, of two such numerals the
nearer one and the greater one when both are equally near, written out without an exponent.
-/

namespace SlotQuery

namespace Binary64

/-- The exponent of the power of ten at or below a positive fraction. -/
def log10Fraction (num den : Nat) : Int :=
  if den ≤ num then (Numeral.digitCount (num / den) : Int) - 1
  else -(Numeral.digitCount ((den + num - 1) / num - 1) : Int)

/-- The digits read back as the number. -/
def readsBack (x : Binary64) (digits : Nat) (exponent : Int) : Bool :=
  (Numeral.mk false digits exponent).toBinary64? == some x

/-- The numeral of `n` digits nearest to the number that reads back, if there is one. It is one of the
number's two neighbours among the numerals of `n` digits. -/
def nearest? (x : Binary64) (n : Nat) : Option Numeral :=
  let (num, den) := x.toFraction
  let e := log10Fraction num den - n + 1
  let num := num * Nat.pow 10 (-e).toNat
  let den := den * Nat.pow 10 e.toNat
  let low := num / den
  let high := low + 1
  let nearer := if 2 * (num % den) < den then [low, high] else [high, low]
  (nearer.find? (x.readsBack · e)).map fun d => ⟨false, d, e⟩

/-- The shortest numeral that reads back; 17 digits always suffice. -/
def shortest (x : Binary64) : Numeral :=
  if x.mantissa = 0 then ⟨false, 0, 0⟩
  else ((List.range 17).findSome? fun n => x.nearest? (n + 1)).getD ⟨false, 0, 0⟩

end Binary64

namespace Numeral

/-- The absolute value written out, without a point when there is nothing behind it. -/
def positional (d : Numeral) : String :=
  let ds := Nat.toDigits 10 d.digits
  if 0 ≤ d.exponent then String.ofList (ds ++ List.replicate d.exponent.toNat '0')
  else
    let places := (-d.exponent).toNat
    let ds := List.replicate (places + 1 - ds.length) '0' ++ ds
    let whole := ds.take (ds.length - places)
    let frac := ((ds.drop (ds.length - places)).reverse.dropWhile (· == '0')).reverse
    String.ofList (if frac.isEmpty then whole else whole ++ '.' :: frac)

end Numeral

namespace Binary64

/-- The text of the number. -/
def render (x : Binary64) : String := x.shortest.positional

end Binary64

end SlotQuery
