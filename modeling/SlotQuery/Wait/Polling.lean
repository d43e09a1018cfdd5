import SlotQuery.Wait.Options

/-!
# Polling

A wait is a run of passes. Each pass looks at something fetched anew; a fetch that failed but may
succeed later counts as a pass that did not finish, any other failure ends the wait. Only after a
pass that did not finish is the limit looked at, so a wait that finds what it wants never runs out of
time. `run` is the whole wait on a clock that moves by the interval between passes and nothing else.
-/

namespace SlotQuery

/-- How a pass went: what is known after it, whether it was the last, and how much is still open. -/
structure Pass (σ : Type) where
  state : σ
  finished : Bool
  pending : Nat

/-- What a wait is for: how it looks at what a pass fetched, and what a pass that fetched nothing
leaves. -/
structure Watch (σ ρ : Type) where
  look : σ → ρ → Pass σ
  idle : σ → Pass σ

/-- What a wait ends with. -/
structure Outcome (σ : Type) where
  state : σ
  timedOut : Bool
deriving Repr

/-- What follows a pass. -/
inductive Verdict (σ : Type) where
  | ended (result : Except FleetError (Outcome σ))
  | again (state : σ)

namespace Watch

variable {σ ρ : Type}

/-- How the pass went, unless its failure is final. -/
def pass (w : Watch σ ρ) (state : σ) (fetched : Except FleetError ρ) :
    Except FleetError (Pass σ) :=
  match fetched with
  | .ok r => .ok (w.look state r)
  | .error e => if e.isTransient then .ok (w.idle state) else .error e

/-- What follows a pass made when the wait has lasted for `elapsed`. -/
def step (w : Watch σ ρ) (timeout : Timeout) (elapsed : Duration) (state : σ)
    (fetched : Except FleetError ρ) : Verdict σ :=
  match w.pass state fetched with
  | .error e => .ended (.error e)
  | .ok p =>
    if p.finished then .ended (.ok ⟨p.state, false⟩)
    else if timeout.expired elapsed then
      if timeout.fatal then .ended (.error (.timeout elapsed p.pending))
      else .ended (.ok ⟨p.state, true⟩)
    else .again p.state

/-- The number of passes of a finished wait, and what it ended with. -/
structure Ended (σ : Type) where
  passes : Nat
  result : Except FleetError (Outcome σ)

/-- The wait from its pass number `n`, counted from zero, over what is fetched from there on. There
is no answer when it would go on beyond that. -/
def runFrom (w : Watch σ ρ) (options : WaitOptions) :
    Nat → σ → List (Except FleetError ρ) → Option (Ended σ)
  | _, _, [] => none
  | n, state, fetched :: rest =>
    match w.step options.timeout (options.interval.times n) state fetched with
    | .ended result => some ⟨n + 1, result⟩
    | .again state => w.runFrom options (n + 1) state rest

/-- The wait over what its passes fetch. -/
def run (w : Watch σ ρ) (options : WaitOptions) (start : σ) (fetched : List (Except FleetError ρ)) :
    Option (Ended σ) :=
  w.runFrom options 0 start fetched

end Watch

end SlotQuery
