import SlotQuery.Query.Grammar

/-!
# A parser with a cursor

The readers of `Grammar` take the tokens that are left and answer with those they leave. A parser reads
the same grammar, but keeps all tokens, the place of the next one, and the level it is on, and changes
place and level as it goes. It may be called again and again, after an error too.
-/

namespace SlotQuery

/-- The tokens, how many of them are read, and the level of the rule that is at work. -/
structure Parser where
  tokens : List Token
  cursor : Nat
  depth : Nat
deriving DecidableEq, Repr

namespace Parser

/-- The parser in front of the tokens. -/
def ofTokens (tokens : List Token) : Parser := ⟨tokens, 0, 0⟩

/-- The tokens that are not read yet. -/
def rest (p : Parser) : List Token := p.tokens.drop p.cursor

/-- The next token. -/
def peek (p : Parser) : Token := p.tokens[p.cursor]?.getD .endOfInput

/-- The parser behind the next token, or where it is if there is none. -/
def advance (p : Parser) : Parser :=
  if p.cursor < p.tokens.length then { p with cursor := p.cursor + 1 } else p

/-- The parser behind the next token, if that is the expected one. -/
def eat? (p : Parser) (expected : Token) : Option Parser :=
  if p.peek = expected then some p.advance else none

theorem peek_eq (p : Parser) : p.peek = Token.peek p.rest := by
  rw [peek, rest, ← List.head?_drop]
  cases p.tokens.drop p.cursor <;> rfl

theorem rest_advance (p : Parser) : p.advance.rest = p.rest.tail := by
  unfold advance
  split
  · simp [rest]
  · next h => simp [rest, List.drop_eq_nil_of_le (Nat.le_of_not_lt h)]

/-- A rule at work: what it reads, and the parser that it leaves. There is no answer when rules would
call each other more deeply than they may. -/
abbrev Parse := Parser → Option (Except QueryError Selector × Parser)

/-- The rule one level further down, unless there is none. -/
def nested (rule : Parse) : Parse := fun p =>
  if maxNesting ≤ p.depth then
    some (.error (.nestingTooDeep maxNesting p.peek.display), p)
  else do
    let (result, p) ← rule { p with depth := p.depth + 1 }
    return (result, { p with depth := p.depth - 1 })

/-- The rules that call each other. -/
structure Rules where
  disjunction : Parse
  conjunction : Parse
  leaf : Parse

/-- The body of a group, if its closing parenthesis follows. -/
def closeGroup (body : Except QueryError Selector) (p : Parser) :
    Except QueryError Selector × Parser :=
  match body, p.eat? .groupClose with
  | .error e, _ => (.error e, p)
  | .ok s, some p => (.ok s, p)
  | .ok _, none => (.error (.expectedCloseParen p.peek.display), p)

/-- Reads a leaf, by the rules that it calls. -/
def leaf (fields : FieldSet) (called : Rules) : Parse := fun p =>
  match p.eat? .not with
  | some p => do
    let (result, p) ← nested called.leaf p
    return (result.map .not, p)
  | none =>
    match p.eat? .groupOpen with
    | some p => do
      let (body, p) ← nested called.disjunction p
      return closeGroup body p
    | none =>
      match p.peek with
      | .condition text =>
        some ((Condition.compile fields text).map Selector.condition, p.advance)
      | t => some (.error (.invalidCondition t.display), p.advance)

/-- Reads a left side and, where the token `link` follows it, a right side. -/
def chain (link : Token) (join : Selector → Selector → Selector) (left right : Parse) : Parse :=
  fun p => do
    match ← left p with
    | (.error e, p) => return (.error e, p)
    | (.ok l, p) =>
      match p.eat? link with
      | none => return (.ok l, p)
      | some p =>
        let (result, p) ← nested right p
        return (result.map (join l), p)

/-- The rules, which may call each other `n` calls deep, their own included. -/
def rules (fields : FieldSet) : Nat → Rules
  | 0 => ⟨fun _ => none, fun _ => none, fun _ => none⟩
  | n + 1 =>
    let called := rules fields n
    let leaf := leaf fields called
    let conjunction := chain .and .and leaf called.conjunction
    ⟨chain .or .or conjunction called.disjunction, conjunction, leaf⟩

/-- Reads one expression. The level leaves room for one call on each of its values. -/
def parseOr (fields : FieldSet) : Parse := (rules fields (maxNesting + 1)).disjunction

/-- The tokens are all read; an end of input among them is read on the way. -/
def atEnd (p : Parser) : Bool × Parser :=
  match p.eat? .endOfInput with
  | some p => (true, p)
  | none => (false, p)

/-- What a parser is asked for. -/
inductive Call where
  | parseOr
  | atEnd
deriving DecidableEq, Repr

/-- What it answers. -/
inductive Answer where
  | read (result : Except QueryError Selector)
  | ended (yes : Bool)

/-- The answer to a call, and the parser that it leaves. -/
def call (fields : FieldSet) (p : Parser) : Call → Option (Answer × Parser)
  | .parseOr => (p.parseOr fields).map fun (result, p) => (.read result, p)
  | .atEnd => some (.ended p.atEnd.1, p.atEnd.2)

/-- The answers to the calls in turn, and the parser that they leave. -/
def run (fields : FieldSet) : Parser → List Call → Option (List Answer × Parser)
  | p, [] => some ([], p)
  | p, c :: calls => do
    let (answer, p) ← p.call fields c
    let (answers, p) ← run fields p calls
    return (answer :: answers, p)

/-- All expressions up to the end of input, as long as this takes no more than `n` of them. -/
def parseAll (fields : FieldSet) (n : Nat) (p : Parser) :
    Option (Except QueryError (List Selector)) :=
  match p.atEnd, n with
  | (true, _), _ => some (.ok [])
  | (false, _), 0 => none
  | (false, p), n + 1 => do
    match ← p.parseOr fields with
    | (.error e, _) => return .error e
    | (.ok s, p) => return (← parseAll fields n p).map (s :: ·)

end Parser

end SlotQuery
