import SlowRequest.Diagnosis.Finding
import SlowRequest.Diagnosis.Thresholds
import SlowRequest.Schema.Calls
namespace SlowRequest

open Json

namespace Thresholds

def toJson (th : Thresholds) : Value :=
  .object [
    ("proportion", .float th.proportion),
    ("min_calls_time_wasting", .natural th.minCallsTimeWasting),
    ("min_calls_n_plus_one", .natural th.minCallsNPlusOne),
    ("sigma_factor", .float th.sigmaFactor),
    ("max_merge_rounds", .natural th.maxMergeRounds),
    ("recursion_call_budget", .ofOption .natural th.recursionCallBudget)]

def count : Reader Nat := natural Word.limit64

def reader : Reader Thresholds :=
  record nestingLimit [
    .defaulted "proportion" float fun x th => { th with proportion := x },
    .defaulted "min_calls_time_wasting" count fun x th => { th with minCallsTimeWasting := x },
    .defaulted "min_calls_n_plus_one" count fun x th => { th with minCallsNPlusOne := x },
    .defaulted "sigma_factor" float fun x th => { th with sigmaFactor := x },
    .defaulted "max_merge_rounds" count fun x th => { th with maxMergeRounds := x },
    .defaulted "recursion_call_budget" (nullable count) fun x th =>
      { th with recursionCallBudget := x }]
    .default

end Thresholds

namespace CauseType

def toJson (c : CauseType) : Value := .string c.label

def reader : Reader CauseType := tagged (all.map fun c => (c.label, .bare c))

end CauseType

namespace CauseStructure

def toJson (s : CauseStructure) : Value :=
  .object [("cause_type", s.type.toJson), ("depth", .natural s.depth)]

def reader : Reader CauseStructure :=
  record nestingLimit [
    .required "cause_type" CauseType.reader fun x s => { s with type := x },
    .required "depth" (natural Word.limit64) fun x s => { s with depth := x }]
    default

end CauseStructure

namespace Cluster

def toJson (c : Cluster) : Value :=
  .object [
    ("invocations", .array (c.invocations.map NodeId.toJson)),
    ("common_context", c.context.toJson),
    ("exclusive_time", .float c.exclusiveTime)]

def reader : Reader Cluster :=
  record nestingLimit [
    .required "invocations" nodeIds fun x c => { c with invocations := x },
    .required "common_context" NodeId.reader fun x c => { c with context := x },
    .required "exclusive_time" float fun x c => { c with exclusiveTime := x }]
    ⟨[], default, 0.0⟩

end Cluster
end SlowRequest
