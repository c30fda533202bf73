import SlowRequest.Diagnosis.Finding
import SlowRequest.Diagnosis.Thresholds
/-!
# The problem cause

Within the problem context, the leading calls that explain a share of its duration, joined by the
calls after them that stay above three sigma below the mean. A lone expensive statement is looked
at together with the statements that its caller repeats.
-/
namespace SlowRequest

namespace Attribution

/-- Takes calls while `limit` is not explained, the first one always; gives the calls left. -/
def greedy (t : CallTree) (limit : Float) :
    List NodeId → Aggregate → Except DiagnosisError (Aggregate × List NodeId)
  | [], cause => .ok (cause, [])
  | id :: ids, cause =>
    if cause.size = 0 ∨ cause.exclusiveTime < limit then do
      let n ← t.diagnosedNode id
      if n.measurement.timer?.isNone then .error (.missingTimingData id)
      else greedy t limit ids (cause.push id n)
    else .ok (cause, id :: ids)

def extend (t : CallTree) (lower : Float) :
    List NodeId → Aggregate → Except DiagnosisError Aggregate
  | [], cause => .ok cause
  | id :: ids, cause => do
    let n ← t.diagnosedNode id
    if n.exclusiveTime ≤ lower then return cause
    else extend t lower ids (cause.push id n)

/-- The mean exclusive time less `sigmaFactor` standard deviations. -/
def lowerBound (sigmaFactor : Float) (cause : Aggregate) : Float :=
  let count := Float.ofNat cause.size
  let mean := cause.exclusiveTime / count
  let squares := cause.exclusiveTimes.foldl (fun sum x => sum + (x - mean) * (x - mean)) 0.0
  mean - sigmaFactor * (squares / count).sqrt

def cause (th : Thresholds) (t : CallTree) (candidates : List NodeId)
    (contextDuration : Float) : Except DiagnosisError Aggregate :=
  match candidates with
  | [] => .error .emptyCause
  | first :: _ => do
    let n ← t.diagnosedNode first
    let (cause, left) ←
      greedy t (th.proportion * contextDuration) candidates (.empty (.of n))
    if 1 < cause.size ∧ left ≠ [] then extend t (lowerBound th.sigmaFactor cause) left cause
    else return cause

end Attribution

def isSingleDatabaseCall (b : Binding Finding) : Bool :=
  match b.get? Tag.problemContext, b.tree with
  | some (.cluster c), .ok t =>
    match c.invocations with
    | [only] => (t.get? only).any Node.hasSql
    | _ => false
  | _, _ => false

namespace ProblemCause

def rootCause (th : Thresholds) (t : CallTree) (c : Cluster) : Except DiagnosisError Aggregate := do
  let n ← t.diagnosedNode c.context
  Attribution.cause th t c.invocations n.duration

end ProblemCause

namespace NPlusOne

/-- The call whose children are searched for repeated statements. A lone call is its own context,
so the search moves up to its caller. -/
def scope (t : CallTree) (c : Cluster) : Except DiagnosisError NodeId :=
  if c.invocations = [c.context] then do
    let n ← t.diagnosedNode c.context
    return n.parent.getD c.context
  else .ok c.context

def appendMissing (calls : List NodeId) : List NodeId → List NodeId
  | [] => calls
  | id :: ids => appendMissing (if calls.contains id then calls else calls ++ [id]) ids

/-- Calls of statements that the scope repeats often, followed by the calls of the cluster; those
alone when nothing repeats often enough. -/
def candidates (th : Thresholds) (t : CallTree) (scope : NodeId) (c : Cluster) :
    Except DiagnosisError (List NodeId) := do
  let n ← t.diagnosedNode scope
  match Aggregate.group t n.children.toList with
  | .error e => .error (.ofTree e)
  | .ok groups =>
    let repeated := groups.filter fun a => a.key.isSql && decide (th.minCallsNPlusOne < a.size)
    let calls := repeated.flatMap fun a => a.members.toList
    return if calls.isEmpty then c.invocations else appendMissing calls c.invocations

def rootCause (th : Thresholds) (t : CallTree) (c : Cluster) : Except DiagnosisError Aggregate := do
  let scope ← scope t c
  let candidates ← candidates th t scope c
  let n ← t.diagnosedNode scope
  Attribution.cause th t candidates n.duration

end NPlusOne

def causeFor (rootCause : CallTree → Cluster → Except DiagnosisError Aggregate)
    (b : Binding Finding) : Diagnosed Aggregate := do
  let t ← ofRule b.tree
  let c ← b.cluster Tag.problemContext
  ofRule (rootCause t c)

def problemCauseRule (th : Thresholds) : DiagnosisRule where
  descriptor :=
    { name := "ProblemCauseRule"
      inputs := [.needed Tag.problemContext]
      parameters := []
      output := Tag.problemCause
      quantity := .single }
  condition b := !isSingleDatabaseCall b
  action b := (causeFor (ProblemCause.rootCause th) b).map fun cause => .single (.aggregate cause)
  report b := reportOf (causeFor (ProblemCause.rootCause th) b) fun cause =>
    [⟨.debug, .problemCause, "Root cause attributed",
      [("method_ident", .natural cause.key.method.toNat), ("members", .natural cause.size),
        ("exclusive_time", .float cause.exclusiveTime)]⟩]

def problemCauseNPlusOneRule (th : Thresholds) : DiagnosisRule where
  descriptor :=
    { name := "ProblemCauseNPlusOneRule"
      inputs := [.needed Tag.problemContext]
      parameters := []
      output := Tag.problemCauseNPlusOne
      quantity := .single }
  condition b := isSingleDatabaseCall b
  action b := (causeFor (NPlusOne.rootCause th) b).map fun cause => .single (.aggregate cause)
  report b := reportOf (causeFor (NPlusOne.rootCause th) b) fun cause =>
    [⟨.debug, .problemCause, "N+1 root cause attributed",
      [("method_ident", .natural cause.key.method.toNat), ("members", .natural cause.size)]⟩]

end SlowRequest
