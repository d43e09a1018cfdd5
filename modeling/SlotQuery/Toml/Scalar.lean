import SlotQuery.Decimal.Numeral
import SlotQuery.Toml.Moment

/-!
# Unquoted values of TOML

Truth values, integers of 64 bits, numbers with a fraction or an exponent, dates and times. Single
underscores may stand between the digits of a number, and a decimal number has no superfluous zero in
front.
-/

namespace SlotQuery.Toml

open Text

/-- The digits with the single underscores between them left out. -/
def digitRun? (isDigit : Char → Bool) : List Char → Option (List Char)
  | [] => none
  | [c] => if isDigit c then some [c] else none
  | c :: '_' :: cs => if isDigit c then (digitRun? isDigit cs).map (c :: ·) else none
  | c :: cs => if isDigit c then (digitRun? isDigit cs).map (c :: ·) else none

/-- The digits of a decimal number without a superfluous zero in front. -/
def wholeRun? (cs : List Char) : Option (List Char) :=
  (digitRun? Char.isDigit cs).filter fun ds => ds.length = 1 || ds.head? != some '0'

/-- The integer if it has 64 bits. -/
def int64? (n : Int) : Option Toml :=
  if Int64.minValue.toInt ≤ n ∧ n ≤ Int64.maxValue.toInt then some (.int n) else none

/-- The integer that the digits of the base spell. -/
def based? (base : Nat) (cs : List Char) : Option Toml :=
  (digitRun? (fun c => (digit? base c).isSome) cs).bind fun ds =>
    (ofDigits? base ds).bind fun n => int64? n

/-- The integer that the characters spell. -/
def integer? (cs : List Char) : Option Toml :=
  match cs with
  | '0' :: 'x' :: cs => based? 16 cs
  | '0' :: 'o' :: cs => based? 8 cs
  | '0' :: 'b' :: cs => based? 2 cs
  | cs =>
    let (negative, cs) := Numeral.sign cs
    (wholeRun? cs).bind fun ds =>
      int64? (if negative then -(ofDigits ds : Int) else ofDigits ds)

/-- The exponent that the characters spell, with its letter; nothing means none. -/
def exponent? (cs : List Char) : Option (List Char) :=
  match cs with
  | [] => some []
  | e :: cs =>
    if e = 'e' ∨ e = 'E' then
      let (negative, cs) := Numeral.sign cs
      (digitRun? Char.isDigit cs).map fun ds => 'e' :: (if negative then '-' :: ds else ds)
    else none

/-- The fraction and the exponent that the characters spell, at least one of them. -/
def tail? (cs : List Char) : Option (List Char) :=
  match cs with
  | [] => none
  | '.' :: cs =>
    let (frac, rest) := cs.span fun c => c.isDigit || c == '_'
    (digitRun? Char.isDigit frac).bind fun ds => (exponent? rest).map ('.' :: ds ++ ·)
  | cs => exponent? cs

/-- The number nearest to the numeral. One that is too large is refused unless it is negative. -/
def nearest? (negative : Bool) (d : Numeral) : Option Real64 :=
  match d.toBinary64? with
  | some x => some (.finite negative x)
  | none => if negative then some (.infinite true) else none

/-- The number that the characters spell with a fraction or an exponent, or by name. -/
def real? (cs : List Char) : Option Real64 :=
  let (negative, cs) := Numeral.sign cs
  match cs with
  | ['i', 'n', 'f'] => some (.infinite negative)
  | ['n', 'a', 'n'] => some .undefined
  | cs =>
    let (whole, rest) := cs.span fun c => c.isDigit || c == '_'
    do
      let ds ← wholeRun? whole
      nearest? negative (← Numeral.parse? (ds ++ (← tail? rest)))

/-- The value that the characters spell without quotation marks. -/
def unquoted? (cs : List Char) : Option Toml :=
  match cs with
  | ['t', 'r', 'u', 'e'] => some (.bool true)
  | ['f', 'a', 'l', 's', 'e'] => some (.bool false)
  | cs =>
    integer? cs <|> (real? cs).map .real <|> (moment? cs).map fun m => .moment (String.ofList m)

/-- A character that cannot belong to an unquoted value. -/
def endsValue (c : Char) : Bool := " \t\r\n,]\x7d#".toList.contains c

/-- The unquoted value at the start of the document. A blank between a date and a time does not end
it. -/
def scalar? (cs : List Char) : Option (Toml × List Char) :=
  let (word, rest) := cs.span (!endsValue ·)
  let (word, rest) := match date? word, rest with
    | some (_, []), ' ' :: c :: cs =>
      if c.isDigit then
        let (time, rest) := (c :: cs).span (!endsValue ·)
        (word ++ ' ' :: time, rest)
      else (word, ' ' :: c :: cs)
    | _, rest => (word, rest)
  (unquoted? word).map fun v => (v, rest)

end SlotQuery.Toml
