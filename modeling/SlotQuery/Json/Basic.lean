/-!
# JSON values

The values of JSON as a reader of records sees them. Integers are kept apart from numbers written
with a fraction or an exponent, and an object keeps its members as written, repeated keys included.
-/

namespace SlotQuery

/-- A JSON value. -/
inductive Json where
  | null
  | bool (b : Bool)
  /-- A number written without fraction and exponent. -/
  | int (n : Int)
  /-- Any other number, as written. -/
  | real (written : String)
  | text (s : String)
  | list (items : List Json)
  | object (members : List (String × Json))
  /-- A text with an unpaired surrogate, or an object with such a key. It has a place in a document,
  but no value can be taken from it. -/
  | unreadable
deriving Repr, Inhabited

namespace Json

/-- The value under the key, the last one if the key is repeated. -/
def get? (j : Json) (key : String) : Option Json :=
  match j with
  | object members => (members.reverse.find? (·.1 == key)).map (·.2)
  | _ => none

/-- A null for nothing. -/
def ofOption {α : Type} (encode : α → Json) (a? : Option α) : Json :=
  match a? with
  | none => null
  | some a => encode a

end Json

end SlotQuery
