import QueryPipeline.Calendar.Date
import QueryPipeline.Number.Binary64

/-!
# Instants

Points of time as milliseconds since the start of 1970-01-01, and the day on which they lie.
-/

namespace QueryPipeline

/-- A point of time, in milliseconds since the start of 1970-01-01. -/
structure Instant where
  millis : Int
  deriving DecidableEq, Repr

namespace Instant

/-- The farthest instant from the epoch on either side: one hundred million days. -/
def maxMillis : Nat := 8640000000000000

/-- The milliseconds of a day. -/
def dayMillis : Int := 86400000

/-- The instant of a number of milliseconds, rounded toward zero. There is none for a number that
    is not finite or lies beyond the farthest instant. -/
def ofMillis? (ms : Binary64) : Option Instant := do
  let n ← ms.truncate?
  -- A fraction beyond the limit is out of range although its whole part is not; at this
  -- magnitude doubles are whole, so the whole part decides.
  guard (n.natAbs ≤ maxMillis)
  some ⟨n⟩

/-- The number of the day on which an instant lies, counted from 1970-01-01. -/
def dayNumber (t : Instant) : Int := t.millis / dayMillis

/-- The calendar date of an instant. -/
def date (t : Instant) : Date := Date.ofDayNumber t.dayNumber

end Instant
end QueryPipeline
