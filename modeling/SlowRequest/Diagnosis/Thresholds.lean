namespace SlowRequest

structure Thresholds where
  /-- Share of a duration that must be explained. -/
  proportion : Float
  /-- Operations with more calls always waste time. -/
  minCallsTimeWasting : Nat
  /-- More repetitions of one statement than this are worth a joint cause. -/
  minCallsNPlusOne : Nat
  sigmaFactor : Float
  maxMergeRounds : Nat
  /-- Matching calls inspected for the structure of a cause; `none` inspects all. -/
  recursionCallBudget : Option Nat
  deriving Repr

def Thresholds.default : Thresholds := ⟨0.8, 20, 10, 3.0, 1000, none⟩

end SlowRequest
