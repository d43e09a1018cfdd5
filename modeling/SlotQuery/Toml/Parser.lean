import SlotQuery.Toml.Quoted
import SlotQuery.Toml.Scalar
import SlotQuery.Toml.Tree

/-!
# Reading TOML

`Toml.parse?` reads a document: a line is a header of a table, a header of one more table of a list,
or a value under a key. Keys are bare or quoted, with points between the keys of tables within
tables.
-/

namespace SlotQuery.Toml

/-- A character of a bare key. -/
def isBareChar (c : Char) : Bool := c.isAlphanum || c == '_' || c == '-'

/-- A key at the start of the document. -/
def key? (cs : List Char) : Option (String × List Char) :=
  match cs with
  | '"' :: cs => (lineText '"' cs).map fun (s, rest) => (String.ofList s, rest)
  | '\'' :: cs => (lineText '\'' cs).map fun (s, rest) => (String.ofList s, rest)
  | cs =>
    let (word, rest) := cs.span isBareChar
    if word.isEmpty then none else some (String.ofList word, rest)

/-- Up to `n` keys with points between them, and the document from its next token on. The last key is
kept apart from those in front of it. -/
def dottedKey? : Nat → List Char → Option ((List String × String) × List Char)
  | 0, _ => none
  | n + 1, cs => do
    let (key, rest) ← key? cs
    match skipGap rest with
    | '.' :: rest =>
      let ((parents, last), rest) ← dottedKey? n (skipGap rest)
      return ((key :: parents, last), rest)
    | rest => some (([], key), rest)

/-- A dotted key at the start of the document. -/
def path? (cs : List Char) : Option ((List String × String) × List Char) :=
  dottedKey? (cs.length + 1) (skipGap cs)

mutual

/-- A value at the start of the document. -/
def value? : Nat → List Char → Option (Toml × List Char)
  | 0, _ => none
  | fuel + 1, cs =>
    match cs with
    | '[' :: cs => (items? fuel (skipLines false cs)).map fun (vs, rest) => (.list vs, rest)
    | '{' :: cs =>
      match skipGap cs with
      | '}' :: rest => some (.table [], rest)
      | cs => (members? fuel [] cs).map fun (t, rest) => (.table (entries t), rest)
    | cs =>
      match cs.head? with
      | some '"' | some '\'' => (quoted? cs).map fun (s, rest) => (.text (String.ofList s), rest)
      | _ => scalar? cs

/-- The items of a list up to its closing bracket. -/
def items? : Nat → List Char → Option (List Toml × List Char)
  | 0, _ => none
  | fuel + 1, cs =>
    match cs with
    | ']' :: rest => some ([], rest)
    | cs => do
      let (v, rest) ← value? fuel cs
      match skipLines false rest with
      | ',' :: rest =>
        let (vs, rest) ← items? fuel (skipLines false rest)
        return (v :: vs, rest)
      | ']' :: rest => return ([v], rest)
      | _ => none

/-- The members of a table on one line up to its closing brace, added to those in front. -/
def members? : Nat → Branches → List Char → Option (Branches × List Char)
  | 0, _, _ => none
  | fuel + 1, t, cs => do
    let ((parents, key), rest) ← path? cs
    let (v, rest) ← value? fuel (skipGap (← after? '=' rest))
    let t ← t.addValue key v parents
    match skipGap rest with
    | ',' :: rest => members? fuel t rest
    | '}' :: rest => return (t, rest)
    | _ => none

end

/-- A statement of a document. -/
inductive Statement where
  /-- The table under the key is the one that values are added to from here on. -/
  | header (parents : List String) (key : String)
  /-- Values are added to one more table of the list under the key from here on. -/
  | listHeader (parents : List String) (key : String)
  | entry (parents : List String) (key : String) (v : Toml)

/-- The statement at the start of the document. Every step of reading a value takes a character or goes
one level down at one, which bounds their number. -/
def statement? (cs : List Char) : Option (Statement × List Char) :=
  match cs with
  | '[' :: '[' :: cs => do
    let ((parents, key), rest) ← path? cs
    return (.listHeader parents key, ← after? ']' (← after? ']' rest))
  | '[' :: cs => do
    let ((parents, key), rest) ← path? cs
    return (.header parents key, ← after? ']' rest)
  | cs => do
    let ((parents, key), rest) ← path? cs
    let (v, rest) ← value? (2 * rest.length + 2) (skipGap (← after? '=' rest))
    return (.entry parents key v, rest)

/-- The statements of a document of at most `n` lines. -/
def statements? : Nat → List Char → Option (List Statement)
  | 0, _ => none
  | n + 1, cs =>
    match skipLines false cs with
    | [] => some []
    | cs => do
      let (s, rest) ← statement? cs
      return s :: (← statements? n (← endLine? rest))

/-- The whole table of the statements, of which values go to the table at the path. -/
def grow? (path : List String) (t : Branches) : List Statement → Option Branches
  | [] => some t
  | .header parents key :: ss => do
    grow? (parents ++ [key]) (← t.within (·.openTable key) parents) ss
  | .listHeader parents key :: ss => do
    grow? (parents ++ [key]) (← t.within (·.addTable key) parents) ss
  | .entry parents key v :: ss => do
    grow? path (← t.within (·.addValue key v parents) path) ss

/-- The entries of the table that the document spells. A byte order mark may stand in front. -/
def parse? (text : String) : Option (List (String × Toml)) := do
  let cs := text.toList
  let cs := if cs.head? = some '\uFEFF' then cs.tail else cs
  let ss ← statements? (cs.length + 1) cs
  return entries (← grow? [] [] ss)

end SlotQuery.Toml
