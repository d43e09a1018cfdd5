import SlotQuery.Decimal.Binary64
import SlotQuery.Text.Digit

/-!
# Decimal numerals

Numerals with an optional sign, fraction and exponent, and the binary number nearest to one.
-/

namespace SlotQuery

/-- The number `digits * 10 ^ exponent`, with a sign. -/
structure Numeral where
  negative : Bool
  digits : Nat
  exponent : Int
deriving DecidableEq, Repr

open Text

namespace Numeral

/-- The number of decimal digits; zero has none. -/
def digitCount (n : Nat) : Nat := if n = 0 then 0 else (Nat.toDigits 10 n).length

/-- A sign, if there is one, and what follows it. -/
def sign : List Char → Bool × List Char
  | '-' :: cs => (true, cs)
  | '+' :: cs => (false, cs)
  | cs => (false, cs)

/-- The exponent at the end of a numeral; nothing there means zero. -/
def parseExponent? : List Char → Option Int
  | [] => some 0
  | c :: cs =>
    if c = 'e' || c = 'E' then
      let (negative, ds) := sign cs
      if ds.isEmpty || !ds.all Char.isDigit then none
      else some (if negative then -(ofDigits ds : Int) else ofDigits ds)
    else none

/-- The numeral that the characters spell. A digit is needed in front of the exponent, on either side
of the point. -/
def parse? (cs : List Char) : Option Numeral :=
  let (negative, cs) := sign cs
  let (whole, rest) := cs.span Char.isDigit
  let (frac, rest) := match rest with
    | '.' :: rest => rest.span Char.isDigit
    | rest => ([], rest)
  if whole.isEmpty && frac.isEmpty then none
  else (parseExponent? rest).map fun e => ⟨negative, ofDigits (whole ++ frac), e - frac.length⟩

/-- The binary number nearest to the absolute value, unless that is too large. Far beyond the least
and the greatest binary number the size alone decides. -/
def toBinary64? (d : Numeral) : Option Binary64 :=
  let size : Int := digitCount d.digits + d.exponent
  if d.digits = 0 || size < -330 then some Binary64.zero
  else if 310 < size then none
  else Binary64.ofFraction? (d.digits * Nat.pow 10 d.exponent.toNat)
    (Nat.pow 10 (-d.exponent).toNat)

end Numeral

end SlotQuery
