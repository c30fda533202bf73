namespace SlowRequest

structure Metrics where
  accepted : UInt64
  rejected : UInt64
  diagnosed : UInt64
  failed : UInt64
  /-- Occurrences found. -/
  results : UInt64
  deriving DecidableEq, Repr, Inhabited

namespace Metrics

def zero : Metrics := ⟨0, 0, 0, 0, 0⟩

def accept (m : Metrics) : Metrics := { m with accepted := m.accepted + 1 }

def reject (m : Metrics) : Metrics := { m with rejected := m.rejected + 1 }

def diagnose (m : Metrics) (occurrences : Nat) : Metrics :=
  { m with diagnosed := m.diagnosed + 1, results := m.results + UInt64.ofNat occurrences }

def fail (m : Metrics) : Metrics := { m with failed := m.failed + 1 }

def completed (m : Metrics) : UInt64 := m.diagnosed + m.failed

end Metrics
end SlowRequest
