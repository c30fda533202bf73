import SlowRequest.Diagnosis.Finding
import SlowRequest.Diagnosis.Thresholds
namespace SlowRequest

/-- Handles below `start`, in pre-order, of the calls that report exclusive time. -/
def timedCalls (t : CallTree) (start : NodeId) : List NodeId :=
  ((t.depthFirst start).map Prod.fst).filter fun id => (t.get? id).any Node.hasExclusive

/-- Operations below `start` by summed exclusive time, longest first; equal ones as first met. -/
def ranking [NaNSums] (t : CallTree) (start : NodeId) : Except DiagnosisError (List Aggregate) :=
  match Aggregate.group t (timedCalls t start) with
  | .ok groups => .ok (groups.mergeSort fun a b => decide (b.rank ≤ a.rank))
  | .error e => .error (.ofTree e)

/-- Takes operations until `limit` is explained and the next has few calls. -/
def leading (limit : Float) (minCalls : Nat) : Float → List Aggregate → List Aggregate
  | _, [] => []
  | sum, a :: rest =>
    if limit ≤ sum ∧ a.size ≤ minCalls then []
    else a :: leading limit minCalls (sum + a.exclusiveTime) rest

def timeWastingOperations [NaNSums] (th : Thresholds) (t : CallTree) (context : NodeId) :
    Except DiagnosisError (List Aggregate) := do
  let n ← (t.node context).mapError .ofTheTree
  let limit := th.proportion * n.duration
  return leading limit th.minCallsTimeWasting 0.0 (← ranking t context)

namespace TimeWastingOperations

def findings [NaNSums] (th : Thresholds) (b : Binding Finding) :
    Diagnosed (NodeId × List Aggregate) := do
  let t ← ofRule b.tree
  let context ← b.node Tag.globalContext
  return (context, ← ofRule (timeWastingOperations th t context))

def selected (context : NodeId) (operations : List Aggregate) : Log.Event where
  level := .debug
  source := .operations
  message := "Time wasting operations selected"
  fields :=
    [("global_context", .string (toString context)), ("operations", .natural operations.length),
      ("exclusive_sum", .float (operations.foldl (fun sum a => sum + a.exclusiveTime) 0.0))]

end TimeWastingOperations

open TimeWastingOperations in
def timeWastingOperationsRule [NaNSums] (th : Thresholds) : DiagnosisRule where
  descriptor :=
    { name := "TimeWastingOperationsRule"
      inputs := [.needed Tag.globalContext]
      parameters := [.needed baselineVariable]
      output := Tag.operations
      quantity := .multiple }
  condition _ := true
  action b := do
    let (_, operations) ← findings th b
    return .multiple (operations.map .aggregate)
  report b := reportOf (findings th b) fun (context, operations) => [selected context operations]

end SlowRequest
