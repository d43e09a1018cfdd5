import SlotQuery.Json.Basic
import SlotQuery.Text.Digit

/-!
# Reading JSON

`Json.parse?` reads a document of exactly one value with white space around it. Control characters
in a text, comments, trailing commas and a byte order mark are refused.
-/

namespace SlotQuery.Json

open Text

/-- White space between the tokens of a document. -/
def isGap (c : Char) : Bool := c == ' ' || c == '\t' || c == '\n' || c == '\r'

/-- The document from its next token on. -/
def skipGap (cs : List Char) : List Char := cs.dropWhile isGap

/-- The character that a letter behind a backslash stands for. -/
def shortEscape? : Char → Option Char
  | '"' => some '"'
  | '\\' => some '\\'
  | '/' => some '/'
  | 'b' => some '\x08'
  | 'f' => some '\x0c'
  | 'n' => some '\n'
  | 'r' => some '\r'
  | 't' => some '\t'
  | _ => none

/-- The first half of a surrogate pair. -/
def isHighSurrogate (n : Nat) : Bool := 0xD800 ≤ n && n < 0xDC00

/-- The second half of a surrogate pair. -/
def isLowSurrogate (n : Nat) : Bool := 0xDC00 ≤ n && n < 0xE000

/-- The character of a surrogate pair. -/
def surrogatePair (high low : Nat) : Char :=
  Char.ofNat (0x10000 + (high - 0xD800) * 0x400 + (low - 0xDC00))

/-- A unit of a written text: a character, or the number of a `u` escape. -/
inductive TextUnit where
  | char (c : Char)
  | code (n : Nat)

/-- The units of a text up to its closing quote, and the document behind it. -/
def textRest : List Char → Option (List TextUnit × List Char)
  | [] => none
  | '"' :: cs => some ([], cs)
  | '\\' :: 'u' :: a :: b :: c :: d :: cs =>
    match ofDigits? 16 [a, b, c, d] with
    | none => none
    | some n => (textRest cs).map fun (us, rest) => (.code n :: us, rest)
  | '\\' :: c :: cs =>
    match shortEscape? c with
    | none => none
    | some e => (textRest cs).map fun (us, rest) => (.char e :: us, rest)
  | c :: cs =>
    if c.toNat < 0x20 || c = '\\' then none
    else (textRest cs).map fun (us, rest) => (.char c :: us, rest)

/-- The characters of the units, unless a surrogate stands alone. -/
def charsOfUnits : List TextUnit → Option (List Char)
  | [] => some []
  | .char c :: us => (charsOfUnits us).map (c :: ·)
  | .code n :: .code m :: us =>
    if isHighSurrogate n && isLowSurrogate m then (charsOfUnits us).map (surrogatePair n m :: ·)
    else if isHighSurrogate n || isLowSurrogate n then none
    else (charsOfUnits (.code m :: us)).map (Char.ofNat n :: ·)
  | .code n :: us =>
    if isHighSurrogate n || isLowSurrogate n then none
    else (charsOfUnits us).map (Char.ofNat n :: ·)

/-- The fraction at the start of the document, empty if there is none. -/
def fraction : List Char → Option (List Char × List Char)
  | '.' :: cs =>
    let (digits, rest) := cs.span Char.isDigit
    if digits.isEmpty then none else some ('.' :: digits, rest)
  | cs => some ([], cs)

/-- The exponent at the start of the document, empty if there is none. -/
def exponent : List Char → Option (List Char × List Char)
  | [] => some ([], [])
  | e :: cs =>
    if e = 'e' || e = 'E' then
      let (sign, cs) := match cs with
        | '+' :: cs => (['+'], cs)
        | '-' :: cs => (['-'], cs)
        | cs => ([], cs)
      let (digits, rest) := cs.span Char.isDigit
      if digits.isEmpty then none else some (e :: sign ++ digits, rest)
    else some ([], e :: cs)

/-- A number. Its integer part has no superfluous zero; `-0` is no integer. -/
def number (cs : List Char) : Option (Json × List Char) :=
  let (negative, unsigned) := match cs with
    | '-' :: cs => (true, cs)
    | cs => (false, cs)
  let (digits, rest) := match unsigned with
    | '0' :: cs => (['0'], cs)
    | cs => cs.span Char.isDigit
  if digits.isEmpty then none
  else
    match fraction rest with
    | none => none
    | some (frac, rest) =>
      match exponent rest with
      | none => none
      | some (exp, rest) =>
        let n := ofDigits digits
        if frac.isEmpty && exp.isEmpty && !(negative && n == 0) then
          some (.int (if negative then -(n : Int) else n), rest)
        else
          let sign := if negative then ['-'] else []
          some (.real (String.ofList (sign ++ digits ++ frac ++ exp)), rest)

/-- The object with the members; one key that cannot be read makes it unreadable. -/
def ofMembers (members : List (Option (List Char) × Json)) : Json :=
  if members.all (·.1.isSome) then
    .object (members.filterMap fun m => m.1.map fun key => (String.ofList key, m.2))
  else .unreadable

mutual

/-- A value at the start of the document. -/
def value : Nat → List Char → Option (Json × List Char)
  | 0, _ => none
  | fuel + 1, cs =>
    match skipGap cs with
    | 'n' :: 'u' :: 'l' :: 'l' :: cs => some (.null, cs)
    | 't' :: 'r' :: 'u' :: 'e' :: cs => some (.bool true, cs)
    | 'f' :: 'a' :: 'l' :: 's' :: 'e' :: cs => some (.bool false, cs)
    | '"' :: cs =>
      (textRest cs).map fun (us, rest) =>
        ((charsOfUnits us).elim .unreadable fun s => .text (String.ofList s), rest)
    | '[' :: cs =>
      match skipGap cs with
      | ']' :: cs => some (.list [], cs)
      | cs => (items fuel cs).map fun (js, rest) => (.list js, rest)
    | '{' :: cs =>
      match skipGap cs with
      | '}' :: cs => some (.object [], cs)
      | cs => (members fuel cs).map fun (ms, rest) => (ofMembers ms, rest)
    | cs => number cs

/-- The items of a list up to its closing bracket. -/
def items : Nat → List Char → Option (List Json × List Char)
  | 0, _ => none
  | fuel + 1, cs =>
    match value fuel cs with
    | none => none
    | some (j, rest) =>
      match skipGap rest with
      | ',' :: rest => (items fuel rest).map fun (js, rest) => (j :: js, rest)
      | ']' :: rest => some ([j], rest)
      | _ => none

/-- The members of an object up to its closing brace. -/
def members : Nat → List Char → Option (List (Option (List Char) × Json) × List Char)
  | 0, _ => none
  | fuel + 1, cs =>
    match skipGap cs with
    | '"' :: cs =>
      match textRest cs with
      | none => none
      | some (us, rest) =>
        let key := charsOfUnits us
        match skipGap rest with
        | ':' :: rest =>
          match value fuel rest with
          | none => none
          | some (j, rest) =>
            match skipGap rest with
            | ',' :: rest => (members fuel rest).map fun (ms, rest) => ((key, j) :: ms, rest)
            | '}' :: rest => some ([(key, j)], rest)
            | _ => none
        | _ => none
    | _ => none

end

/-- The value that the text spells. Each step of the reader but every other takes a character, which
bounds their number. -/
def parse? (text : String) : Option Json :=
  let cs := text.toList
  match value (2 * cs.length + 2) cs with
  | some (j, rest) => if (skipGap rest).isEmpty then some j else none
  | none => none

end SlotQuery.Json
