/-!
# Query errors

Every way in which a query can fail to compile. A compiled query never fails.
-/

namespace SlotQuery

/-- Why a query does not compile. -/
inductive QueryError where
  /-- No `]` behind the opening bracket is followed by something a query can go on with. -/
  | unterminatedCondition (near : String)
  /-- The text starts with no token. -/
  | unrecognizedToken (near : String)
  /-- The text has not the form of a field, an operator and a value, or is no condition at all. -/
  | invalidCondition (near : String)
  /-- The field is not a known one. -/
  | unknownField (field : String)
  /-- An opened group is not closed. -/
  | expectedCloseParen (near : String)
  /-- The value is not a well-formed pattern. -/
  | invalidPattern (pattern : String)
  /-- Groups, negations and chains nest more than `limit` levels deep. -/
  | nestingTooDeep (limit : Nat) (near : String)
deriving DecidableEq, Repr

namespace QueryError

/-- The text that the error is about. -/
def context : QueryError → String
  | unterminatedCondition near | unrecognizedToken near | invalidCondition near
  | expectedCloseParen near | nestingTooDeep _ near => near
  | unknownField field => field
  | invalidPattern pattern => pattern

/-- What went wrong, without the text it is about. -/
def cause : QueryError → String
  | unterminatedCondition _ => "unterminated condition near"
  | unrecognizedToken _ => "unrecognized token near"
  | invalidCondition _ => "invalid condition near"
  | unknownField _ => "unknown field"
  | expectedCloseParen _ => "expecting \")\" near"
  | invalidPattern _ => "invalid pattern near"
  | nestingTooDeep limit _ => "nesting deeper than " ++ toString limit ++ " levels near"

/-- The error as shown to a user. -/
def message (e : QueryError) : String :=
  "Query syntax error: " ++ e.cause ++ ": " ++ e.context

end QueryError

end SlotQuery
