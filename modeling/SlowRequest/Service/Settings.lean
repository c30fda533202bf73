namespace SlowRequest

structure ServiceSettings where
  workers : Nat
  queueCapacity : Nat
  /-- Milliseconds that one attempt waits. -/
  enqueueTimeout : UInt64
  enqueueAttempts : UInt32
  resultCapacity : Nat
  deriving DecidableEq, Repr, Inhabited

end SlowRequest
