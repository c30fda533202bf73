import SlowRequest.Diagnosis.Finding
namespace SlowRequest

structure CallReference where
  invocationId : UInt64
  node : NodeId
  method : UInt64
  timer : Timer
  deriving DecidableEq, Repr, Inhabited

structure CauseReference where
  method : UInt64
  statement : Option String
  uri : Option String
  invocationIds : List UInt64
  nodes : List NodeId
  exclusiveTime : Float
  duration : Float
  count : Nat
  deriving DecidableEq, Repr, Inhabited

structure Occurrence where
  id : UInt64
  timestamp : Instant
  requestRoot : CallReference
  globalContext : CallReference
  problemContext : CallReference
  rootCause : CauseReference
  causeStructure : CauseStructure
  application : UInt32
  businessTransaction : UInt32
  deriving DecidableEq, Repr, Inhabited

/-- A call without a timer is given one that knows its duration alone. -/
def CallReference.of (t : CallTree) (id : NodeId) : Except TreeError CallReference := do
  let n ← t.node id
  return ⟨n.invocationId, id, n.method, n.measurement.timer?.getD ⟨n.duration, none, 0.0, 1⟩⟩

namespace CauseReference

def invocationIdsOf (t : CallTree) : List NodeId → Except TreeError (List UInt64)
  | [] => .ok []
  | id :: ids => do
    let n ← t.node id
    return n.invocationId :: (← invocationIdsOf t ids)

def of (t : CallTree) (cause : Aggregate) : Except TreeError CauseReference := do
  let invocationIds ← invocationIdsOf t cause.members.toList
  return ⟨cause.key.method, cause.key.statement, cause.key.uri, invocationIds,
    cause.members.toList, cause.exclusiveTime, cause.duration, cause.size⟩

end CauseReference
end SlowRequest
