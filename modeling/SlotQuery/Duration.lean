import SlotQuery.Decimal.Shortest

/-!
# Durations

Spans of time in whole nanoseconds, their conversion from and to seconds, and their text.
-/

namespace SlotQuery

/-- A span of time. -/
structure Duration where
  nanos : Nat
deriving DecidableEq, Repr

namespace Duration

/-- The nanoseconds of a second. -/
def perSecond : Nat := 1000000000

/-- No time. -/
def zero : Duration := ⟨0⟩

/-- The span of seconds and nanoseconds. -/
def ofParts (secs nanos : Nat) : Duration := ⟨secs * perSecond + nanos⟩

/-- The span of whole seconds. -/
def ofSecs (secs : Nat) : Duration := ofParts secs 0

/-- The span of whole milliseconds. -/
def ofMillis (ms : Nat) : Duration := ⟨ms * 1000000⟩

/-- The whole seconds. -/
def secs (d : Duration) : Nat := d.nanos / perSecond

/-- The nanoseconds beyond the whole seconds. -/
def subsecNanos (d : Duration) : Nat := d.nanos % perSecond

/-- The whole milliseconds. -/
def millis (d : Duration) : Nat := d.nanos / 1000000

/-- The span `n` times in a row. -/
def times (n : Nat) (d : Duration) : Duration := ⟨n * d.nanos⟩

/-- What is left of the span after another one, at least nothing. -/
def minus (d e : Duration) : Duration := ⟨d.nanos - e.nanos⟩

/-- The span and then another one, however long that is. -/
def plus (d e : Duration) : Duration := ⟨d.nanos + e.nanos⟩

theorem plus_zero (d : Duration) : d.plus .zero = d := rfl

theorem minus_minus (d e f : Duration) : (d.minus e).minus f = d.minus (e.plus f) :=
  congrArg mk (Nat.sub_sub d.nanos e.nanos f.nanos)

theorem times_plus_times (d : Duration) (m n : Nat) : (d.times m).plus (d.times n) = d.times (m + n) :=
  congrArg mk (Nat.add_mul m n d.nanos).symm

/-- The first span is longer than the second. -/
def longerThan (d e : Duration) : Bool := e.nanos < d.nanos

/-- A span has fewer whole seconds than this. -/
def secsLimit : Nat := UInt64.size

/-- The span of the given seconds to the nearest nanosecond, a half to the even one, unless it is too
long. -/
def ofSeconds? (seconds : Binary64) : Option Duration :=
  let (num, den) := seconds.toFraction
  let nanos := roundDiv (num * perSecond) den
  if nanos < secsLimit * perSecond then some ⟨nanos⟩ else none

/-- The seconds of the span: the whole ones and the fraction are rounded on their own and then their
sum. -/
def toSeconds (d : Duration) : Binary64 :=
  let whole := (Binary64.ofNat? d.secs).getD .zero
  let frac := (Binary64.ofFraction? d.subsecNanos perSecond).getD .zero
  (whole.add? frac).getD .zero

/-- The quotient by a power of ten with its decimals, the zeros at their end left out. -/
def decimals (n places : Nat) : String := (Numeral.mk false n (-places)).positional

/-- The text with the largest unit of which there is at least one. -/
def render (d : Duration) : String :=
  if perSecond ≤ d.nanos then decimals d.nanos 9 ++ "s"
  else if 1000000 ≤ d.nanos then decimals d.nanos 6 ++ "ms"
  else if 1000 ≤ d.nanos then decimals d.nanos 3 ++ "µs"
  else decimals d.nanos 0 ++ "ns"

end Duration

end SlotQuery
