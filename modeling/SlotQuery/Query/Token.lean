/-!
# Tokens

The lexical units of a query, and reading them one by one. Past the last token every read gives the
end of input.
-/

namespace SlotQuery

/-- A lexical unit of a query. -/
inductive Token where
  /-- A condition as written, brackets included. -/
  | condition (text : String)
  | and
  | or
  | not
  | groupOpen
  | groupClose
  | endOfInput
deriving DecidableEq, Repr

namespace Token

/-- The token as shown to a user. -/
def display : Token → String
  | condition text => text
  | and => "AND"
  | or => "OR"
  | not => "NOT"
  | groupOpen => "("
  | groupClose => ")"
  | endOfInput => "end of query"

/-- The first of the tokens. -/
def peek : List Token → Token
  | [] => endOfInput
  | t :: _ => t

/-- The first of the tokens and those behind it. -/
def next : List Token → Token × List Token
  | [] => (endOfInput, [])
  | t :: ts => (t, ts)

/-- The tokens behind the first one, if that is the expected one. -/
def eat? (expected : Token) (ts : List Token) : Option (List Token) :=
  if peek ts = expected then some ts.tail else none

end Token

end SlotQuery
