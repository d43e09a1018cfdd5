import SlotQuery.Decimal.Numeral

/-!
# Texts in YAML

How a text is written so that it reads back as that text: as it is where nothing in it means anything
else, in single quotation marks, in double ones with escapes, or as a literal block over several lines.
-/

namespace SlotQuery.Yaml

open Text

/-! ## Texts that read as something else -/

/-- The words for nothing and for the truth values, those of older documents included. -/
def reservedWords : List String :=
  ["", "null", "Null", "NULL", "~", "true", "True", "TRUE", "false", "False", "FALSE",
    "y", "Y", "yes", "Yes", "YES", "n", "N", "no", "No", "NO", "on", "On", "ON", "off", "Off", "OFF",
    ".inf", ".Inf", ".INF", "+.inf", "+.Inf", "+.INF", "-.inf", "-.Inf", "-.INF",
    ".nan", ".NaN", ".NAN"]

/-- An integer of base 16, 8 or 2 of up to 128 bits. -/
def isBased (cs : List Char) : Bool :=
  let (negative, cs) := Numeral.sign cs
  match cs with
  | '0' :: 'x' :: ds => fits negative (value? 16 ds)
  | '0' :: 'o' :: ds => fits negative (value? 8 ds)
  | '0' :: 'b' :: ds => fits negative (value? 2 ds)
  | _ => false
where
  /-- The number that the digits spell; there has to be one. -/
  value? (base : Nat) (ds : List Char) : Option Nat :=
    if ds.isEmpty then none else ofDigits? base ds
  /-- The number has 128 bits, one of them for the sign if it is negative. -/
  fits (negative : Bool) (n? : Option Nat) : Bool :=
    n?.any fun n => if negative then n ≤ Nat.pow 2 127 else n < Nat.pow 2 128

/-- A number with zeros in front, which is no number to all readers. -/
def isPadded (cs : List Char) : Bool :=
  match (Numeral.sign cs).2 with
  | '0' :: d :: ds => (d :: ds).all Char.isDigit
  | _ => false

/-- A number of decimal digits that is not too large. -/
def isDecimal (cs : List Char) : Bool := ((Numeral.parse? cs).bind Numeral.toBinary64?).isSome

/-- Without quotation marks the text would or might read as something other than a text. -/
def readsOtherwise (s : String) : Bool :=
  reservedWords.contains s || isBased s.toList || isPadded s.toList || isDecimal s.toList

/-! ## Characters -/

/-- A line break of any kind. -/
def isBreak (c : Char) : Bool :=
  c == '\n' || c == '\r' || c == '\u0085' || c == '\u2028' || c == '\u2029'

/-- A character that sets off the indicators beside it. -/
def isSeparator (c : Char) : Bool := c == ' ' || c == '\t' || c == '\x00' || isBreak c

/-- A character that may be written as it is. -/
def isPrintable (c : Char) : Bool :=
  let n := c.toNat
  n == 0x0A || (0x20 ≤ n && n ≤ 0x7E) || (0xA0 ≤ n && n != 0xFEFF && n != 0xFFFE && n != 0xFFFF)

/-- What follows is set off: a separator or the end. -/
def setOff (cs : List Char) : Bool := cs.head?.all isSeparator

/-- A colon in front of a separator, or a hash behind one. -/
def hasInnerIndicator (behindSeparator : Bool) : List Char → Bool
  | [] => false
  | c :: cs =>
    (c == ':' && setOff cs) || (c == '#' && behindSeparator) || hasInnerIndicator (isSeparator c) cs

/-- The characters mean something beyond themselves. -/
def hasIndicator : List Char → Bool
  | [] => false
  | c :: cs =>
    [['-', '-', '-'], ['.', '.', '.']].any (·.isPrefixOf (c :: cs)) ||
      "#,[]\x7b\x7d&*!|>'\"%@`".toList.contains c || ("?:-".toList.contains c && setOff cs) ||
      hasInnerIndicator (isSeparator c) cs

/-- Two neighbours of which the first and the second have the properties. -/
def hasPair (p q : Char → Bool) (cs : List Char) : Bool :=
  (cs.zip cs.tail).any fun (a, b) => p a && q b

/-! ## Styles -/

/-- How a text is written. -/
inductive Style where
  | plain
  | single
  | double
  | literal
deriving DecidableEq, Repr

/-- A space. -/
def isSpace (c : Char) : Bool := c == ' '

/-- The text may stand in single quotation marks. -/
def singleAllowed (cs : List Char) : Bool :=
  cs.all isPrintable && !hasPair isBreak isSpace cs && !hasPair isSpace isBreak cs

/-- The text may stand as it is. -/
def plainAllowed (cs : List Char) : Bool :=
  cs.all isPrintable && !cs.any isBreak && !cs.head?.any isSpace && !cs.getLast?.any isSpace &&
    !hasIndicator cs

/-- The text may stand as a literal block. -/
def literalAllowed (cs : List Char) : Bool :=
  cs.all isPrintable && !hasPair isSpace isBreak cs && !cs.getLast?.any isSpace

/-- How the text is written: over several lines if it has several, else as it is if that reads back,
and with the least quotation that it can do with. -/
def style (s : String) : Style :=
  let cs := s.toList
  if cs.contains '\n' then if literalAllowed cs then .literal else .double
  else if plainAllowed cs && !readsOtherwise s then .plain
  else if singleAllowed cs then .single
  else .double

/-! ## Written forms -/

/-- The characters with the indentation in front of every line but empty ones. -/
def indentLines (indent : Nat) (atStart : Bool) : List Char → List Char
  | [] => []
  | c :: cs =>
    if isBreak c then c :: indentLines indent true cs
    else (if atStart then List.replicate indent ' ' else []) ++ c :: indentLines indent false cs

/-- The characters between single quotation marks, where such a mark is doubled. Continued lines are
indented, that of the closing mark too. -/
def single (indent : Nat) (cs : List Char) : List Char :=
  let doubled := cs.flatMap fun c => if c = '\'' then ['\'', '\''] else [c]
  '\'' :: indentLines indent false (doubled ++ ['\''])

/-- Hexadecimal digits of a number. -/
def hexDigits : Nat → Nat → List Char
  | 0, _ => []
  | width + 1, n => hexDigits width (n / 16) ++ [(Nat.digitChar (n % 16)).toUpper]

/-- A character between double quotation marks. -/
def escapeChar (c : Char) : List Char :=
  match c with
  | '\x00' => ['\\', '0']
  | '\x07' => ['\\', 'a']
  | '\x08' => ['\\', 'b']
  | '\t' => ['\\', 't']
  | '\n' => ['\\', 'n']
  | '\x0b' => ['\\', 'v']
  | '\x0c' => ['\\', 'f']
  | '\r' => ['\\', 'r']
  | '\x1b' => ['\\', 'e']
  | '"' => ['\\', '"']
  | '\\' => ['\\', '\\']
  | '\u0085' => ['\\', 'N']
  | '\u2028' => ['\\', 'L']
  | '\u2029' => ['\\', 'P']
  | c =>
    if isPrintable c then [c]
    else if c.toNat ≤ 0xFF then '\\' :: 'x' :: hexDigits 2 c.toNat
    else '\\' :: 'u' :: hexDigits 4 c.toNat

/-- The characters between double quotation marks. -/
def double (cs : List Char) : List Char := '"' :: cs.flatMap escapeChar ++ ['"']

/-- What says how a literal block ends: without a line break, with one, or with several. -/
def chomping (cs : List Char) : List Char :=
  match cs.reverse with
  | [] => ['-']
  | c :: rest =>
    if !isBreak c then ['-']
    else if rest.head?.all isBreak then ['+']
    else []

/-- The characters as a literal block. The width of the indentation is told if the text starts with
white space of its own. -/
def literal (indent : Nat) (cs : List Char) : List Char :=
  let width := if cs.head?.any fun c => isSpace c || isBreak c then ['2'] else []
  '|' :: width ++ chomping cs ++ '\n' :: indentLines indent true cs

/-- The written form of a text, its continued lines indented. -/
def scalar (indent : Nat) (s : String) : String :=
  let cs := s.toList
  match style s with
  | .plain => s
  | .single => String.ofList (single indent cs)
  | .double => String.ofList (double cs)
  | .literal => String.ofList (literal indent cs)

end SlotQuery.Yaml
