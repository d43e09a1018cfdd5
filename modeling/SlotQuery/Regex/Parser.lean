import SlotQuery.Regex.Basic
import SlotQuery.Text.Digit

/-!
# The written form of patterns

`Regex.parse?` reads a pattern under the flags it starts with. Flags set inside a group hold to the
end of that group, later branches included. A pattern is refused when a group or class is not
closed, a repetition has nothing to repeat, a count, an escape, a flag or a group name is not well
formed, and when it asks for look-around or a back reference.

Three things about the dialect are not modelled. Classes by Unicode property (`\p{..}`, `\P{..}`, `\pL`)
are refused. The flag `u` is read but turning it off has no effect: `\w`, `\b` and the like stay those of
Unicode. And no limit is set on how deep a pattern nests or how large it becomes.
-/

namespace SlotQuery.Regex

open Text

/-- The settings in force at a place of a pattern. -/
structure Flags where
  /-- Characters are read in either case. -/
  foldCase : Bool := false
  /-- Both `^` and `$` hold at every line. -/
  multiLine : Bool := false
  /-- A dot reads a line feed as well. -/
  dotAll : Bool := false
  /-- Carriage returns end lines. -/
  carriage : Bool := false
  /-- White space and comments of the pattern are skipped. -/
  spaced : Bool := false

namespace Flags

/-- The flag written as the letter `c` is set to `on`. Which repetitions are greedy (`U`) has no part in
whether a pattern is found; what `u` off would change is not modelled. -/
def set? (flags : Flags) (c : Char) (on : Bool) : Option Flags :=
  match c with
  | 'i' => some { flags with foldCase := on }
  | 'm' => some { flags with multiLine := on }
  | 's' => some { flags with dotAll := on }
  | 'R' => some { flags with carriage := on }
  | 'x' => some { flags with spaced := on }
  | 'U' | 'u' => some flags
  | _ => none

/-- The pattern without leading comments and white space. -/
def skipSpaced (inComment : Bool) : List Char → List Char
  | [] => []
  | c :: cs =>
    if inComment then skipSpaced (c != '\n') cs
    else if isBlank c then skipSpaced false cs
    else if c = '#' then skipSpaced true cs
    else c :: cs

/-- The pattern from the next character that counts. -/
def skip (flags : Flags) (cs : List Char) : List Char :=
  if flags.spaced then skipSpaced false cs else cs

/-- What `.` reads. -/
def dot (flags : Flags) : CharSet :=
  if flags.dotAll then .anything
  else if flags.carriage then .compl (.union (.only '\n') (.only '\r'))
  else .compl (.only '\n')

/-- What `^` asks for. -/
def lineStart (flags : Flags) : Anchor :=
  if flags.multiLine then .lineStart flags.carriage else .textStart

/-- What `$` asks for. -/
def lineEnd (flags : Flags) : Anchor :=
  if flags.multiLine then .lineEnd flags.carriage else .textEnd

end Flags

/-- The flag letters up to `:` or `)`, each at most once and at most one `-`, which needs a letter
behind it. The character that ended them is left in place. -/
def flagLetters (flags : Flags) (seen : List Char) (on dangling : Bool) :
    List Char → Option (Flags × List Char)
  | [] => none
  | c :: cs =>
    if c = ':' || c = ')' then if dangling then none else some (flags, c :: cs)
    else if seen.contains c then none
    else if c = '-' then flagLetters flags (c :: seen) false true cs
    else (flags.set? c on).bind fun flags => flagLetters flags (c :: seen) on false cs

/-- The character with the code point that the digits spell. -/
def charOfHex? (digits : List Char) : Option Char :=
  (ofDigits? 16 digits).bind fun n => if n.isValidChar then some (Char.ofNat n) else none

/-- What an escape stands for. -/
inductive Escape where
  | char (c : Char)
  | set (s : CharSet)
  | anchor (a : Anchor)

/-- The escaped code point: in braces, or as exactly `width` digits. -/
def hexEscape (width : Nat) (cs : List Char) : Option (Escape × List Char) :=
  match cs with
  | '{' :: cs =>
    match cs.span (· != '}') with
    | (digits, _ :: rest) =>
      if digits.isEmpty then none else (charOfHex? digits).map fun c => (.char c, rest)
    | (_, []) => none
  | _ =>
    if cs.length < width then none
    else (charOfHex? (cs.take width)).map fun c => (.char c, cs.drop width)

/-- The escape of a word edge: `b`, with a kind in braces behind it unless the brace opens a count.
-/
def edgeEscape (cs : List Char) : Option (Escape × List Char) :=
  let named (c : Char) : Bool := c.isAlpha || c = '-'
  match cs with
  | '{' :: c :: rest =>
    if named c then
      match (c :: rest).span named with
      | (name, '}' :: rest) =>
        match String.ofList name with
        | "start" => some (.anchor .wordStart, rest)
        | "end" => some (.anchor .wordEnd, rest)
        | "start-half" => some (.anchor .afterNoWord, rest)
        | "end-half" => some (.anchor .beforeNoWord, rest)
        | _ => none
      | _ => none
    else some (.anchor .wordEdge, cs)
  | ['{'] => none
  | _ => some (.anchor .wordEdge, cs)

/-- The escape behind a backslash. A character of ASCII that is neither letter nor digit stands for
itself, the angle brackets apart. -/
def escape : List Char → Option (Escape × List Char)
  | [] => none
  | c :: cs =>
    match c with
    | 'd' => some (.set .digit, cs)
    | 'D' => some (.set (.compl .digit), cs)
    | 's' => some (.set .blank, cs)
    | 'S' => some (.set (.compl .blank), cs)
    | 'w' => some (.set .word, cs)
    | 'W' => some (.set (.compl .word), cs)
    | 'x' => hexEscape 2 cs
    | 'u' => hexEscape 4 cs
    | 'U' => hexEscape 8 cs
    | 'a' => some (.char '\x07', cs)
    | 'f' => some (.char '\x0c', cs)
    | 'n' => some (.char '\n', cs)
    | 'r' => some (.char '\r', cs)
    | 't' => some (.char '\t', cs)
    | 'v' => some (.char '\x0b', cs)
    | 'A' => some (.anchor .textStart, cs)
    | 'z' => some (.anchor .textEnd, cs)
    | 'b' => edgeEscape cs
    | 'B' => some (.anchor .noWordEdge, cs)
    | '<' => some (.anchor .wordStart, cs)
    | '>' => some (.anchor .wordEnd, cs)
    | _ => if c.toNat < 0x80 && !c.isAlphanum then some (.char c, cs) else none

/-- The operations between the parts of a class. -/
inductive SetOp where
  | inter
  | diff
  | symmDiff

/-- The set that the operation makes. -/
def SetOp.apply : SetOp → CharSet → CharSet → CharSet
  | inter => .inter
  | diff => .diff
  | symmDiff => .symmDiff

/-- A class up to a place in it: the part left of the last operation, if there was one, and the union
of the items since. -/
structure ClassPart where
  left : Option (CharSet × SetOp) := none
  items : CharSet := .nothing

namespace ClassPart

/-- One more item. -/
def add (part : ClassPart) (s : CharSet) : ClassPart := { part with items := .union part.items s }

/-- The set read so far. -/
def toSet (part : ClassPart) (flags : Flags) : CharSet :=
  match part.left with
  | none => part.items
  | some (left, op) =>
    op.apply (.anyCaseIf flags.foldCase left) (.anyCaseIf flags.foldCase part.items)

/-- The operation is written here. -/
def operate (part : ClassPart) (flags : Flags) (op : SetOp) : ClassPart :=
  { left := some (part.toSet flags, op) }

end ClassPart

/-- A class named as in `[:alpha:]`, its opening bracket read. -/
def namedClass (flags : Flags) (cs : List Char) : Option (CharSet × List Char) :=
  match cs with
  | ':' :: cs =>
    let (negated, cs) := match cs with
      | '^' :: cs => (true, cs)
      | _ => (false, cs)
    match cs.span (· != ':') with
    | (name, ':' :: ']' :: rest) =>
      (CharSet.named? (String.ofList name)).map fun s =>
        (.negateIf negated (.anyCaseIf flags.foldCase s), rest)
    | _ => none
  | _ => none

/-- The opening of a class, its bracket read: whether it is negated, and the items that are literal
only there, any number of `-` or else a single `]`. -/
def classOpening (flags : Flags) (cs : List Char) : Bool × ClassPart × List Char :=
  let cs := flags.skip cs
  let (negated, cs) := match cs with
    | '^' :: cs => (true, flags.skip cs)
    | _ => (false, cs)
  match cs with
  | '-' :: _ =>
    (negated, ({} : ClassPart).add (.only '-'), dashes cs)
  | ']' :: cs => (negated, ({} : ClassPart).add (.only ']'), cs)
  | _ => (negated, {}, cs)
where
  /-- The class behind its leading dashes. -/
  dashes : List Char → List Char
    | [] => []
    | c :: cs => if c = '-' then dashes cs else flags.skip (c :: cs)

/-- One item of a class: a character or an escaped set. An anchor is none. -/
def classItem : List Char → Option (Escape × List Char)
  | [] => none
  | '\\' :: cs =>
    match escape cs with
    | some (.anchor _, _) => none
    | item? => item?
  | c :: cs => some (.char c, cs)

/-- One item or range of a class. -/
def classRange (flags : Flags) (cs : List Char) : Option (CharSet × List Char) :=
  match classItem cs with
  | some (.char first, cs) =>
    match flags.skip cs with
    | '-' :: rest =>
      match flags.skip rest with
      | ']' :: _ | '-' :: _ => some (.only first, cs)
      | rest =>
        match classItem rest with
        | some (.char last, rest) => if first ≤ last then some (.range first last, rest) else none
        | _ => none
    | _ => some (.only first, cs)
  | some (.set s, cs) =>
    match flags.skip cs with
    | '-' :: rest =>
      match flags.skip rest with
      | ']' :: _ | '-' :: _ => some (s, cs)
      | _ => none
    | _ => some (s, cs)
  | _ => none

/-- The rest of a class and what follows its closing bracket. -/
def classRest : Nat → Flags → Bool → ClassPart → List Char → Option (CharSet × List Char)
  | 0, _, _, _, _ => none
  | fuel + 1, flags, negated, part, cs =>
    match flags.skip cs with
    | [] => none
    | ']' :: rest =>
      some (.negateIf negated (.anyCaseIf flags.foldCase (part.toSet flags)), rest)
    | '[' :: rest =>
      match namedClass flags rest with
      | some (s, rest) => classRest fuel flags negated (part.add s) rest
      | none =>
        let (innerNegated, inner, rest) := classOpening flags rest
        match classRest fuel flags innerNegated inner rest with
        | some (s, rest) => classRest fuel flags negated (part.add s) rest
        | none => none
    | '&' :: '&' :: rest => classRest fuel flags negated (part.operate flags .inter) rest
    | '-' :: '-' :: rest => classRest fuel flags negated (part.operate flags .diff) rest
    | '~' :: '~' :: rest => classRest fuel flags negated (part.operate flags .symmDiff) rest
    | cs =>
      match classRange flags cs with
      | some (s, rest) => classRest fuel flags negated (part.add s) rest
      | none => none

/-- A decimal count with white space around it. -/
def count (cs : List Char) : Option (Nat × List Char) :=
  let (digits, rest) := (trimLeft cs).span Char.isDigit
  let n := ofDigits digits
  if digits.isEmpty || n ≥ UInt32.size then none else some (n, trimLeft rest)

/-- The counts of a repetition, its opening brace read. -/
def counts (flags : Flags) (cs : List Char) : Option ((Nat × Option Nat) × List Char) :=
  match count (flags.skip cs) with
  | some (n, '}' :: rest) => some ((n, some n), rest)
  | some (n, ',' :: rest) =>
    match flags.skip rest with
    | '}' :: rest => some ((n, none), rest)
    | rest =>
      match count rest with
      | some (m, '}' :: rest) => if n ≤ m then some ((n, some m), rest) else none
      | _ => none
  | _ => none

/-- What opens behind a parenthesis. -/
inductive Opening where
  /-- Flags for the rest of the enclosing group. -/
  | setting (flags : Flags)
  /-- A group with its flags and the group names taken so far. -/
  | group (flags : Flags) (names : List (List Char))

/-- A group name up to its closing bracket. It starts with a letter or `_`; behind that letters,
numbers and `_ . [ ]` may follow. -/
def groupName (cs : List Char) : Option (List Char × List Char) :=
  match cs.span (· != '>') with
  | (c :: name, _ :: rest) =>
    if (c = '_' || isLetter c) &&
        name.all fun c => c = '_' || c = '.' || c = '[' || c = ']' || isLetterOrNumber c then
      some (c :: name, rest)
    else none
  | _ => none

/-- The opening of a group, its parenthesis read. -/
def opening (flags : Flags) (names : List (List Char)) (cs : List Char) :
    Option (Opening × List Char) :=
  let named (cs : List Char) : Option (Opening × List Char) :=
    match groupName cs with
    | some (name, rest) =>
      if names.contains name then none else some (.group flags (name :: names), rest)
    | none => none
  match cs with
  | '?' :: '<' :: '=' :: _ | '?' :: '<' :: '!' :: _ => none
  | '?' :: '<' :: rest | '?' :: 'P' :: '<' :: rest => named rest
  | '?' :: rest =>
    match flagLetters flags [] true false rest with
    | some (inner, ':' :: after) => some (.group inner names, after)
    | some (inner, ')' :: after) =>
      if rest.head? = some ')' then none else some (.setting inner, after)
    | _ => none
  | _ => some (.group flags names, cs)

/-- A group up to a place in it: its finished branches and the items of the branch at hand, both last
first. An item without a pattern is a setting of flags, which nothing can repeat. -/
structure Branches where
  done : List Regex := []
  items : List (Option Regex) := []

namespace Branches

/-- One more item. -/
def push (b : Branches) (item : Option Regex) : Branches := { b with items := item :: b.items }

/-- The branch at hand as a pattern. -/
def current (b : Branches) : Regex := sequence (b.items.reverse.filterMap id)

/-- The branch at hand is finished. -/
def next (b : Branches) : Branches := { done := b.current :: b.done }

/-- The last item, repeated. -/
def repeat? (b : Branches) (least : Nat) (most : Option Nat) : Option Branches :=
  match b.items with
  | some r :: items => some { b with items := some (rep r least most) :: items }
  | _ => none

/-- The group as a pattern. -/
def toRegex (b : Branches) : Regex := b.done.foldl (fun r branch => alt branch r) b.current

end Branches

/-- The pattern behind a repetition operator, with the mark of a lazy one dropped. What a pattern
matches does not depend on laziness. -/
def dropLazy : List Char → List Char
  | '?' :: cs => cs
  | cs => cs

/-- What stands at a place of a group. -/
inductive Piece where
  /-- The end of the group. -/
  | finish
  /-- The start of another branch. -/
  | branch
  /-- The start of a group within. -/
  | group
  /-- The start of a class. -/
  | set
  /-- The last item is repeated. -/
  | repetition (least : Nat) (most : Option Nat)
  /-- One more item. -/
  | item (r : Regex)

/-- The pattern of an escape. -/
def Escape.toRegex (flags : Flags) : Escape → Regex
  | char c => .chars (.literal flags.foldCase c)
  | set s => .chars s
  | anchor a => .anchor a

/-- The piece at the start of the pattern, and what follows it. A closing parenthesis is left in
place. -/
def piece (flags : Flags) (cs : List Char) : Option (Piece × List Char) :=
  match cs with
  | [] => some (.finish, [])
  | c :: rest =>
    match c with
    | ')' => some (.finish, c :: rest)
    | '|' => some (.branch, rest)
    | '(' => some (.group, rest)
    | '[' => some (.set, rest)
    | '*' => some (.repetition 0 none, rest)
    | '+' => some (.repetition 1 none, rest)
    | '?' => some (.repetition 0 (some 1), rest)
    | '{' => (counts flags rest).map fun (n, rest) => (.repetition n.1 n.2, flags.skip rest)
    | '\\' => (escape rest).map fun (e, rest) => (.item (e.toRegex flags), rest)
    | '.' => some (.item (chars flags.dot), rest)
    | '^' => some (.item (anchor flags.lineStart), rest)
    | '$' => some (.item (anchor flags.lineEnd), rest)
    | c => some (.item (chars (.literal flags.foldCase c)), rest)

/-- The rest of a group: its pattern, the group names taken and what is left, which is nothing or
starts with the closing parenthesis. -/
def groupRest : Nat → Flags → List (List Char) → Branches → List Char →
    Option (Regex × List (List Char) × List Char)
  | 0, _, _, _, _ => none
  | fuel + 1, flags, names, b, cs =>
    match piece flags (flags.skip cs) with
    | none => none
    | some (.finish, rest) => some (b.toRegex, names, rest)
    | some (.branch, rest) => groupRest fuel flags names b.next rest
    | some (.group, rest) =>
      match opening flags names (flags.skip rest) with
      | some (.setting flags, rest) => groupRest fuel flags names (b.push none) rest
      | some (.group inner names, rest) =>
        match groupRest fuel inner names {} rest with
        | some (r, names, ')' :: rest) => groupRest fuel flags names (b.push (some r)) rest
        | _ => none
      | none => none
    | some (.set, rest) =>
      let (negated, part, rest) := classOpening flags rest
      match classRest fuel flags negated part rest with
      | some (s, rest) => groupRest fuel flags names (b.push (some (chars s))) rest
      | none => none
    | some (.repetition least most, rest) =>
      match b.repeat? least most with
      | some b => groupRest fuel flags names b (dropLazy rest)
      | none => none
    | some (.item r, rest) => groupRest fuel flags names (b.push (some r)) rest

/-- The pattern that the text spells, if it is well formed. Every step of the reader takes a
character, which bounds their number. -/
def parse? (flags : Flags) (text : List Char) : Option Regex :=
  match groupRest (text.length + 1) flags [] {} text with
  | some (r, _, []) => some r
  | _ => none

end SlotQuery.Regex
