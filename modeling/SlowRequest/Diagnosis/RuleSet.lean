import SlowRequest.Diagnosis.GlobalContext
import SlowRequest.Diagnosis.Operations
import SlowRequest.Diagnosis.Clustering
import SlowRequest.Diagnosis.Attribution
import SlowRequest.Diagnosis.Recurrence
import SlowRequest.Engine.Session
namespace SlowRequest

def diagnosisRules [NaNSums] (th : Thresholds) : List DiagnosisRule :=
  [globalContextRule, timeWastingOperationsRule th, problemContextRule th, problemCauseRule th,
    problemCauseNPlusOneRule th, causeStructureRule th, causeStructureNPlusOneRule]

abbrev DiagnosisSession := Session Finding DiagnosisError

abbrev DiagnosisGraph := RuleGraph Finding DiagnosisError

def diagnosisGraph [NaNSums] (th : Thresholds) : Except DefinitionError DiagnosisGraph :=
  RuleGraph.register Tag.root (diagnosisRules th)

end SlowRequest
