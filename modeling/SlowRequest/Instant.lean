/-!
# Instants

A point in time on the UTC line. A leap second is written as a nanosecond part of one second or
more, so the order of instants is the order of the pair.
-/
namespace SlowRequest

structure Instant where
  /-- Whole seconds since 1970-01-01T00:00:00Z, leap seconds not counted. -/
  seconds : Int
  /-- Below 10^9, or below 2 * 10^9 inside a leap second. -/
  nanos : Nat
  deriving DecidableEq, Repr, Inhabited

namespace Instant

def nanosPerSecond : Nat := 1000000000

def epoch : Instant := ⟨0, 0⟩

def le (a b : Instant) : Bool :=
  decide (a.seconds < b.seconds) || (a.seconds == b.seconds && decide (a.nanos ≤ b.nanos))

end Instant
end SlowRequest
