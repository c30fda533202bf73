import SlowRequest.Aggregate
import SlowRequest.Engine.Rule
namespace SlowRequest

/-- Calls of one operation under a call that all of them lie below. -/
structure Cluster where
  invocations : List NodeId
  /-- The problem context. -/
  context : NodeId
  exclusiveTime : Float
  deriving Repr

inductive CauseType where
  | single
  | iterative
  | recursive
  | singleDatabase
  | iterativeDatabase
  | recursiveDatabase
  | nPlusOneDatabase
  deriving DecidableEq, Repr, Inhabited

namespace CauseType

def isDatabase : CauseType → Bool
  | singleDatabase | iterativeDatabase | recursiveDatabase | nPlusOneDatabase => true
  | _ => false

def label : CauseType → String
  | single => "SINGLE"
  | iterative => "ITERATIVE"
  | recursive => "RECURSIVE"
  | singleDatabase => "SINGLE_DATABASE"
  | iterativeDatabase => "ITERATIVE_DATABASE"
  | recursiveDatabase => "RECURSIVE_DATABASE"
  | nPlusOneDatabase => "NPLUSONE_DATABASE"

def all : List CauseType :=
  [single, iterative, recursive, singleDatabase, iterativeDatabase, recursiveDatabase,
    nPlusOneDatabase]

end CauseType

structure CauseStructure where
  type : CauseType
  depth : Nat
  deriving DecidableEq, Repr, Inhabited

inductive Finding where
  | request (tree : CallTree)
  | node (id : NodeId)
  | aggregate (aggregate : Aggregate)
  | cluster (cluster : Cluster)
  | causeStructure (found : CauseStructure)

namespace Finding

def kind : Finding → String
  | request _ => "root"
  | node _ => "node"
  | aggregate _ => "aggregate"
  | cluster _ => "cluster"
  | causeStructure _ => "structure"

end Finding

inductive DiagnosisError where
  | unexpectedFact (tag : Tag) (expected found : String)
  | missingNode (node : NodeId)
  | missingTimingData (node : NodeId)
  | emptyCause
  | brokenParentChain (node : NodeId) (walked requested : Nat)
  | missingVariable (name : String)
  /-- A fault of the tree, passed on as it is. -/
  | ofTheTree (fault : TreeError)
  /-- A rule beyond the standard ones gives its reason itself. -/
  | other (reason : String)
  deriving DecidableEq, Repr

namespace DiagnosisError

def message : DiagnosisError → String
  | unexpectedFact tag expected found =>
    "Tag '" ++ tag ++ "' holds a " ++ found ++ " fact, expected " ++ expected
  | missingNode n => "Node " ++ toString n ++ " is not part of the diagnosed tree"
  | missingTimingData n => "Node " ++ toString n ++ " carries no timing data"
  | emptyCause => "Root cause aggregate holds no invocations"
  | brokenParentChain n walked requested => (TreeError.brokenParentChain n walked requested).message
  | missingVariable name => "Session variable '" ++ name ++ "' is not set"
  | ofTheTree fault => fault.message
  | other reason => reason

def ofTree : TreeError → DiagnosisError
  | .unknownNode n => missingNode n
  | .brokenParentChain n walked requested => brokenParentChain n walked requested
  | .empty => missingNode ⟨0⟩

end DiagnosisError

def CallTree.diagnosedNode (t : CallTree) (id : NodeId) : Except DiagnosisError Node :=
  (t.node id).mapError .ofTree

namespace Tag

def root : Tag := "diagnosis.root"
def globalContext : Tag := "diagnosis.global_context"
def operations : Tag := "diagnosis.time_wasting_operations"
def problemContext : Tag := "diagnosis.problem_context"
def problemCause : Tag := "diagnosis.problem_cause"
def problemCauseNPlusOne : Tag := "diagnosis.problem_cause.n_plus_one"
def causeStructure : Tag := "diagnosis.cause_structure"

end Tag

def baselineVariable : String := "baseline"

def baselineOnly (baseline : Float) : Variables := [(baselineVariable, baseline)]

abbrev DiagnosisRule := Rule Finding DiagnosisError

abbrev Diagnosed (α : Type) := Except (ActionError DiagnosisError) α

namespace Binding

def fail {α : Type} (e : DiagnosisError) : Diagnosed α := .error (.rule e)

def tree (b : Binding Finding) : Except DiagnosisError CallTree :=
  match b.root with
  | .request t => .ok t
  | found => .error (.unexpectedFact Tag.root "root" found.kind)

def baseline (b : Binding Finding) : Except DiagnosisError Float :=
  match b.variableNamed? baselineVariable with
  | some x => .ok x
  | none => .error (.missingVariable baselineVariable)

def node (b : Binding Finding) (tag : Tag) : Diagnosed NodeId := do
  match ← b.require tag with
  | .node id => return id
  | found => fail (.unexpectedFact tag "node" found.kind)

def aggregate (b : Binding Finding) (tag : Tag) : Diagnosed Aggregate := do
  match ← b.require tag with
  | .aggregate a => return a
  | found => fail (.unexpectedFact tag "aggregate" found.kind)

def cluster (b : Binding Finding) (tag : Tag) : Diagnosed Cluster := do
  match ← b.require tag with
  | .cluster c => return c
  | found => fail (.unexpectedFact tag "cluster" found.kind)

end Binding

def ofRule {α : Type} (x : Except DiagnosisError α) : Diagnosed α := x.mapError .rule

/-- The report of an action that gave a value; nothing is said of one that failed. -/
def reportOf {α : Type} (x : Diagnosed α) (events : α → List Log.Event) : List Log.Event :=
  match x with
  | .ok a => events a
  | .error _ => []

end SlowRequest
