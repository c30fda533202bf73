import SlowRequest.Diagnosis.Finding
import SlowRequest.Diagnosis.Thresholds
/-!
# The problem context

Every call of a time-wasting operation starts as a part of its own. Parts that are close in the
tree are joined under their common ancestor, the smallest distance first, until one part holds a
significant share of the operation's exclusive time. Its context is the problem context.
-/
namespace SlowRequest

structure Part extends Cluster where
  /-- Steps from the context up to the common ancestor with the next part; the last part has no
  next one. -/
  distance : Option Nat
  deriving Repr

namespace Part

def single (id : NodeId) (exclusiveTime : Float) : Part := ⟨⟨[id], id, exclusiveTime⟩, none⟩

/-- Distances of the part whose context was met last, at `depth`, and of the parts after it;
`least` is the least depth visited since. -/
def distancesFrom : List (NodeId × Nat) → Nat → Option Nat → List NodeId → List (Option Nat)
  | _, _, _, [] => [none]
  | [], _, _, _ :: contexts => none :: none :: contexts.map fun _ => none
  | (id, d) :: walk, depth, least, context :: contexts =>
    let low := (least.map (min · d)).getD d
    if id = context then some (depth + 1 - low) :: distancesFrom walk d none contexts
    else distancesFrom walk depth (some low) (context :: contexts)

/-- Distances between contexts that a walk meets in order; a context that it does not meet, and
all after it, have none. -/
def distances : List (NodeId × Nat) → List NodeId → List (Option Nat)
  | _, [] => []
  | [], contexts => contexts.map fun _ => none
  | (id, d) :: walk, context :: contexts =>
    if id = context then distancesFrom walk d none contexts
    else distances walk (context :: contexts)

def assignDistances (walk : List (NodeId × Nat)) (parts : List Part) : List Part :=
  parts.zipWith (fun p d => { p with distance := d })
    (distances walk (parts.map fun p => p.context))

def closestDistance? (parts : List Part) : Option Nat := (parts.filterMap Part.distance).min?

def closes (threshold : Nat) (p : Part) : Bool := p.distance.all (threshold < ·)

def runs (threshold : Nat) : List Part → List (List Part)
  | [] => []
  | p :: ps =>
    if p.closes threshold then [p] :: runs threshold ps
    else
      match runs threshold ps with
      | [] => [[p]]
      | r :: rs => (p :: r) :: rs

/-- Joins a run under the common ancestor of its first two parts; a run of one part stays. -/
def join (t : CallTree) : List Part → Except DiagnosisError (List Part)
  | [] => .ok []
  | [p] => .ok [p]
  | p :: ps =>
    match t.ancestor p.context (p.distance.getD 0) with
    | .error e => .error (.ofTree e)
    | .ok context =>
      .ok [⟨⟨(p :: ps).flatMap fun q => q.invocations, context,
        (p :: ps).foldl (fun sum q => sum + q.exclusiveTime) 0.0⟩, none⟩]

def joinAll (t : CallTree) : List (List Part) → Except DiagnosisError (List Part)
  | [] => .ok []
  | r :: rs => do
    let p ← join t r
    return p ++ (← joinAll t rs)

/-- One merge round: joins what lies closest; `none` when no part has a next one. -/
def mergeClosest (t : CallTree) (walk : List (NodeId × Nat)) (parts : List Part) :
    Except DiagnosisError (Option (List Part)) :=
  let parts := assignDistances walk parts
  match closestDistance? parts with
  | none => .ok none
  | some threshold => (joinAll t (runs threshold parts)).map some

/-- The first part that none exceeds from the left. -/
def longest (first : Part) (parts : List Part) : Part :=
  parts.foldl (fun best p => if best.exclusiveTime < p.exclusiveTime then p else best) first

end Part

inductive Settlement where
  /-- The operation has one call. -/
  | alone
  | significant (round parts : Nat)
  /-- A part turned out significant in the last round. -/
  | afterRounds
  | longest (parts : Nat)
  deriving DecidableEq, Repr

namespace Clustering

def significant? (significance : Float) (parts : List Part) : Option Part :=
  parts.find? fun p => significance < p.exclusiveTime

def choose (significance : Float) (parts : List Part) :
    Except DiagnosisError (Part × Settlement) :=
  match significant? significance parts, parts with
  | some p, _ => .ok (p, .afterRounds)
  | none, p :: ps => .ok (Part.longest p (p :: ps), .longest (p :: ps).length)
  | none, [] => .error .emptyCause

/-- Merge rounds until a part is significant, none can be joined or no round is left. -/
def settle (t : CallTree) (walk : List (NodeId × Nat)) (significance : Float) :
    Nat → Nat → List Part → Except DiagnosisError (Part × Settlement)
  | 0, _, parts => choose significance parts
  | rounds + 1, round, parts =>
    match significant? significance parts with
    | some p => .ok (p, .significant round parts.length)
    | none =>
      match Part.mergeClosest t walk parts with
      | .error e => .error e
      | .ok none => choose significance parts
      | .ok (some merged) => settle t walk significance rounds (round + 1) merged

/-- One part for every call; each must carry timing data. -/
def singles (t : CallTree) : List NodeId → Except DiagnosisError (List Part)
  | [] => .ok []
  | id :: ids => do
    let n ← t.diagnosedNode id
    if n.measurement.timer?.isNone then .error (.missingTimingData id)
    else return .single id n.exclusiveTime :: (← singles t ids)

def run (th : Thresholds) (t : CallTree) (context : NodeId) (operation : Aggregate) :
    Except DiagnosisError (Part × Settlement) := do
  match ← singles t operation.members.toList with
  | [] => .error .emptyCause
  | [p] => return (p, .alone)
  | parts =>
    let overall := parts.foldl (fun sum p => sum + p.exclusiveTime) 0.0
    settle t (t.depthFirst context) (th.proportion * overall) th.maxMergeRounds 0 parts

def cluster (th : Thresholds) (t : CallTree) (context : NodeId) (operation : Aggregate) :
    Except DiagnosisError Cluster :=
  (run th t context operation).map fun (p, _) => p.toCluster

def findings (th : Thresholds) (b : Binding Finding) : Diagnosed (Part × Settlement) := do
  let t ← ofRule b.tree
  let context ← b.node Tag.globalContext
  let operation ← b.aggregate Tag.operations
  ofRule (run th t context operation)

def settled : Settlement → List Log.Event
  | .significant round parts =>
    [⟨.debug, .problemContext, "Significant cluster found",
      [("round", .natural round), ("clusters", .natural parts)]⟩]
  | .longest parts =>
    [⟨.warn, .problemContext, "No significant cluster emerged, falling back to the longest one",
      [("clusters", .natural parts)]⟩]
  | .alone | .afterRounds => []

def identified (p : Part) : Log.Event where
  level := .debug
  source := .problemContext
  message := "Problem context identified"
  fields :=
    [("problem_context", .string (toString p.context)),
      ("invocations", .natural p.invocations.length)]

end Clustering

open Clustering in
def problemContextRule (th : Thresholds) : DiagnosisRule where
  descriptor :=
    { name := "ProblemContextRule"
      inputs := [.needed Tag.globalContext, .needed Tag.operations]
      parameters := []
      output := Tag.problemContext
      quantity := .single }
  condition _ := true
  action b := do
    let (p, _) ← findings th b
    return .single (.cluster p.toCluster)
  report b := reportOf (findings th b) fun (p, how) => settled how ++ [identified p]

end SlowRequest
