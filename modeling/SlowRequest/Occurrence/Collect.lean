import SlowRequest.Engine.FactForest
import SlowRequest.Occurrence.Basic
/-!
# Collecting occurrences

A finished session holds one occurrence for each cause structure. What else belongs to it is read
off the lineage of that fact. Occurrences are numbered in the order they are met; one whose calls
turn out to be foreign to the tree has used up its number.
-/
namespace SlowRequest

namespace Finding

def node? : Finding → Option NodeId
  | node id => some id
  | _ => none

def aggregate? : Finding → Option Aggregate
  | aggregate a => some a
  | _ => none

def cluster? : Finding → Option Cluster
  | cluster c => some c
  | _ => none

def causeStructure? : Finding → Option CauseStructure
  | causeStructure s => some s
  | _ => none

def request? : Finding → Option CallTree
  | request t => some t
  | _ => none

/-- A finding of the wanted kind; one that was not found counts as a kind of its own. -/
def require {α : Type} (tag : Tag) (expected : String) (found : Option Finding)
    (view : Finding → Option α) : Except DiagnosisError α :=
  match found.bind view with
  | some x => .ok x
  | none => .error (.unexpectedFact tag expected ((found.map kind).getD "nothing"))

end Finding

/-- What the lineage of a cause structure holds. -/
structure Narrowing where
  structureFound : CauseStructure
  cause : Aggregate
  cluster : Cluster
  globalContext : NodeId
  deriving Repr

namespace Narrowing

def onLineage (f : FactForest Finding) (id : FactId) (tag : Tag) : Option Finding :=
  ((f.nearest? id tag).bind f.get?).map Fact.value

def of (f : FactForest Finding) (id : FactId) : Except DiagnosisError Narrowing := do
  let structureFound ← Finding.require Tag.causeStructure "structure"
    ((f.get? id).map Fact.value) Finding.causeStructure?
  let cause ← Finding.require Tag.problemCause "aggregate"
    ((onLineage f id Tag.problemCause).or (onLineage f id Tag.problemCauseNPlusOne))
    Finding.aggregate?
  let cluster ← Finding.require Tag.problemContext "cluster"
    (onLineage f id Tag.problemContext) Finding.cluster?
  let globalContext ← Finding.require Tag.globalContext "node"
    (onLineage f id Tag.globalContext) Finding.node?
  return ⟨structureFound, cause, cluster, globalContext⟩

def occurrence (n : Narrowing) (t : CallTree) (root : Node) (id : UInt64) :
    Except TreeError Occurrence := do
  let requestRoot ← CallReference.of t t.root
  let globalContext ← CallReference.of t n.globalContext
  let problemContext ← CallReference.of t n.cluster.context
  let rootCause ← CauseReference.of t n.cause
  return {
    id
    timestamp := root.timestamp
    requestRoot
    globalContext
    problemContext
    rootCause
    causeStructure := n.structureFound
    application := root.application
    businessTransaction := root.businessTransaction }

end Narrowing

namespace Occurrence

/-- The occurrences of cause structures in order, numbered from `next` on, up to the first fault;
with the number that the next one would get. -/
def assemble (f : FactForest Finding) (t : CallTree) (root : Node) :
    List FactId → UInt64 → Except DiagnosisError (List Occurrence) × UInt64
  | [], next => (.ok [], next)
  | id :: ids, next =>
    match Narrowing.of f id with
    | .error e => (.error e, next)
    | .ok found =>
      match found.occurrence t root next with
      | .error e => (.error (.ofTree e), next + 1)
      | .ok occurrence =>
        let (rest, next) := assemble f t root ids (next + 1)
        (rest.map (occurrence :: ·), next)

/-- The occurrences of a session, numbered from `next` on. A session without facts has none. -/
def collect (f : FactForest Finding) (next : UInt64) :
    Except DiagnosisError (List Occurrence) × UInt64 :=
  match f.root? with
  | none => (.ok [], next)
  | some rootFact =>
    let root := do
      let t ← Finding.require Tag.root "root" (some rootFact.value) Finding.request?
      return (t, ← t.diagnosedNode t.root)
    match root with
    | .error e => (.error e, next)
    | .ok (t, n) => assemble f t n ((f.entries Tag.causeStructure).map StoredFact.id) next

end Occurrence
end SlowRequest
