import SlowRequest.Diagnosis.Finding
import SlowRequest.Diagnosis.Thresholds
/-!
# The structure of a cause

A cause is called once, repeatedly side by side, or nested in itself. The nesting is read off a
walk through the problem context: the stack holds the depths of the matching calls around the
current one.
-/
namespace SlowRequest

namespace Recurrence

/-- The most matching calls on one chain, among the first `budget` matches of a walk. -/
def nesting (covers : NodeId → Bool) :
    List (NodeId × Nat) → Option Nat → List Nat → Nat → Nat
  | [], _, _, deepest => deepest
  | (id, depth) :: walk, budget, stack, deepest =>
    if budget = some 0 then deepest
    else
      let stack := stack.dropWhile (depth ≤ ·)
      if covers id then
        nesting covers walk (budget.map (· - 1)) (depth :: stack) (max deepest (stack.length + 1))
      else nesting covers walk budget stack deepest

def causeType (database nested : Bool) : CauseType :=
  match nested, database with
  | true, false => .recursive
  | true, true => .recursiveDatabase
  | false, false => .iterative
  | false, true => .iterativeDatabase

def classify (th : Thresholds) (t : CallTree) (context : NodeId) (cause : Aggregate) :
    Except DiagnosisError CauseStructure :=
  let database := cause.key.isSql
  match cause.size with
  | 0 => .error .emptyCause
  | 1 => .ok ⟨if database then .singleDatabase else .single, 0⟩
  | _ =>
    let deepest := nesting (fun id => (t.get? id).any cause.key.covers) (t.depthFirst context)
      th.recursionCallBudget [] 0
    .ok ⟨causeType database (1 < deepest), deepest⟩

/-- A statement repeated by its caller, or called once after all. -/
def classifyNPlusOne (cause : Aggregate) : CauseStructure :=
  ⟨if 1 < cause.size then .nPlusOneDatabase else .singleDatabase, 0⟩

def findings (th : Thresholds) (b : Binding Finding) : Diagnosed CauseStructure := do
  let t ← ofRule b.tree
  let c ← b.cluster Tag.problemContext
  let cause ← b.aggregate Tag.problemCause
  ofRule (classify th t c.context cause)

end Recurrence

open Recurrence in
def causeStructureRule (th : Thresholds) : DiagnosisRule where
  descriptor :=
    { name := "CauseStructureRule"
      inputs := [.needed Tag.problemContext, .needed Tag.problemCause]
      parameters := []
      output := Tag.causeStructure
      quantity := .single }
  condition _ := true
  action b := (findings th b).map fun s => .single (.causeStructure s)
  report b := reportOf (findings th b) fun s =>
    [⟨.debug, .causeStructure, "Cause structure classified",
      [("cause_type", .string s.type.label), ("depth", .natural s.depth)]⟩]

def causeStructureNPlusOneRule : DiagnosisRule where
  descriptor :=
    { name := "CauseStructureNPlusOneRule"
      inputs := [.needed Tag.problemContext, .needed Tag.problemCauseNPlusOne]
      parameters := []
      output := Tag.causeStructure
      quantity := .single }
  condition _ := true
  action b := (b.aggregate Tag.problemCauseNPlusOne).map fun cause =>
    .single (.causeStructure (Recurrence.classifyNPlusOne cause))
  report _ := []

end SlowRequest
