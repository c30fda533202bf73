import SlowRequest.Instant
/-!
# Recorded calls

One call of a request with the measurement the agent attached to it. A call carries at most one
kind of measurement, and the measurement need not report exclusive time. A call is known by its
position; trees have fewer than `2 ^ 32` calls, so that positions fit into a word.
-/
namespace SlowRequest

/-- Handle of a call: its position in the order of insertion. -/
structure NodeId where
  index : Nat
  deriving DecidableEq, Repr, Inhabited

instance : ToString NodeId := ⟨fun id => "#" ++ toString id.index⟩

structure Timer where
  duration : Float
  /-- Time spent in the call itself; `none` when the agent did not report it. -/
  exclusive : Option Float
  cpu : Float
  count : UInt64
  deriving Repr, Inhabited, DecidableEq

inductive Measurement where
  | none
  | timer (timer : Timer)
  | sql (timer : Timer) (statement : String)
  | http (timer : Timer) (uri requestMethod : String)
  deriving Repr, Inhabited, DecidableEq

namespace Measurement

def timer? : Measurement → Option Timer
  | none => .none
  | timer t | sql t _ | http t _ _ => some t

def statement? : Measurement → Option String
  | sql _ s => some s
  | _ => .none

def uri? : Measurement → Option String
  | http _ u _ => some u
  | _ => .none

end Measurement

structure Call where
  method : UInt64
  duration : Float
  measurement : Measurement
  /-- Zero asks the tree to number the call itself. -/
  invocationId : UInt64
  timestamp : Instant
  application : UInt32
  businessTransaction : UInt32
  deriving Repr, Inhabited

def Call.timed (method : UInt64) (duration exclusive : Float) : Call where
  method
  duration
  measurement := .timer ⟨duration, some exclusive, 0.0, 1⟩
  invocationId := 0
  timestamp := .epoch
  application := 0
  businessTransaction := 0

structure Node extends Call where
  parent : Option NodeId
  children : Array NodeId
  deriving Repr, Inhabited

namespace Node

/-- A method or HTTP timer; the timer of an SQL statement does not count. -/
def hasTimer (n : Node) : Bool :=
  match n.measurement with
  | .timer _ | .http .. => true
  | _ => false

def hasSql (n : Node) : Bool := n.measurement.statement?.isSome

def hasHttp (n : Node) : Bool := n.measurement.uri?.isSome

def exclusive? (n : Node) : Option Float := n.measurement.timer?.bind Timer.exclusive

def hasExclusive (n : Node) : Bool := n.exclusive?.isSome

/-- Time that was not reported counts as zero. -/
def exclusiveTime (n : Node) : Float := n.exclusive?.getD 0.0

end Node
end SlowRequest
