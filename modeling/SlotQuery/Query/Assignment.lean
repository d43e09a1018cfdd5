import SlotQuery.Query.SelectorSet

/-!
# Assigning candidates to slots

One pass over the pool, first fit: the candidates come in pool order, and each goes to the first
empty slot whose selector accepts it. This is no maximum matching; earlier slots win.
-/

namespace SlotQuery

/-- What one pass gives: for each slot, the place in the pool of the candidate that it holds. -/
structure Assignment where
  pool : List Attributes
  held : List (Option Nat)
deriving DecidableEq, Repr

/-- The slots after the candidate, number `index` of the pool, was offered to them. -/
def offer (index : Nat) (candidate : Attributes) :
    List Selector → List (Option Nat) → List (Option Nat)
  | s :: ss, h :: hs =>
    if h.isNone && s.accepts candidate then some index :: hs
    else h :: offer index candidate ss hs
  | _, held => held

/-- The slots after the candidates, numbered from `index` on, were offered to them in turn. -/
def offerAll (selectors : List Selector) :
    Nat → List Attributes → List (Option Nat) → List (Option Nat)
  | _, [], held => held
  | index, c :: cs, held => offerAll selectors (index + 1) cs (offer index c selectors held)

/-- The slots of the selectors filled from the pool. -/
def assign (selectors : List Selector) (pool : List Attributes) : Assignment :=
  ⟨pool, offerAll selectors 0 pool (selectors.map fun _ => none)⟩

namespace Assignment

/-- The candidate in the slot. -/
def get? (a : Assignment) (slot : Nat) : Option Attributes :=
  match a.held[slot]? with
  | some (some index) => a.pool[index]?
  | _ => none

/-- The candidate in every slot. -/
def slots (a : Assignment) : List (Option Attributes) :=
  a.held.map fun h => h.bind (a.pool[·]?)

/-- The number of slots. -/
def size (a : Assignment) : Nat := a.held.length

/-- Every slot holds a candidate. -/
def isComplete (a : Assignment) : Bool := a.held.all Option.isSome

/-- No slot holds a candidate. -/
def isVacant (a : Assignment) : Bool := a.held.all Option.isNone

/-- The number of empty slots. -/
def pending (a : Assignment) : Nat := a.held.countP Option.isNone

end Assignment

/-- One pass of the set over the pool. -/
def SelectorSet.assign (set : SelectorSet) (pool : List Attributes) : Assignment :=
  SlotQuery.assign set.selectors pool

end SlotQuery
