import SlowRequest.Engine.Journal
import SlowRequest.Occurrence.Collect
import SlowRequest.Results.Listener
import SlowRequest.Service.Metrics
namespace SlowRequest

structure DiagnosisRequest where
  tree : CallTree
  baseline : Float

namespace DiagnosisRequest

def isSlow (r : DiagnosisRequest) : Bool :=
  (r.tree.get? r.tree.root).any fun n => decide (r.baseline < n.duration)

def invocation (r : DiagnosisRequest) : UInt64 :=
  ((r.tree.get? r.tree.root).map fun n => n.invocationId).getD 0

end DiagnosisRequest

inductive Outcome where
  | diagnosed (occurrences : List Occurrence)
  /-- The session ended well, but its facts do not make up occurrences. -/
  | unassembled (error : DiagnosisError)
  | failed (error : DiagnosisFailure)

namespace Outcome

def notice? : Outcome → Option Notice
  | diagnosed [] => none
  | diagnosed occurrences => some (.results occurrences)
  | unassembled _ => none
  | failed e => some (.failure e)

def count (m : Metrics) : Outcome → Metrics
  | diagnosed occurrences => m.diagnose occurrences.length
  | unassembled _ | failed _ => m.fail

def said : Outcome → List Log.Event
  | diagnosed _ => []
  | unassembled e =>
    [⟨.error, .service, "❌ Failed to assemble problem occurrences",
      [("error", .string e.message)]⟩]
  | failed e =>
    [⟨.error, .service, "❌ Diagnosis session failed",
      [("rule", .string (e.rule?.getD "-")), ("error", .string (DiagnosisFailure.text e))]⟩]

end Outcome

/-- What one diagnosis leaves behind. -/
structure Diagnosis where
  session : DiagnosisSession
  outcome : Outcome
  /-- The number that the next occurrence gets. -/
  next : UInt64
  journal : List Log.Event

namespace DiagnosisSession

/-- Diagnoses a request; its occurrences are numbered from `next` on. -/
def diagnose (s : DiagnosisSession) (next : UInt64) (r : DiagnosisRequest) : Diagnosis :=
  match s.activate (.request r.tree) (baselineOnly r.baseline) with
  | .error e => ⟨s.passivate, .failed e, next, Outcome.said (.failed e)⟩
  | .ok active =>
    let journal := active.journal
    let (processed, called) := active.call
    match called with
    | .error e => ⟨processed.passivate, .failed e, next, journal ++ Outcome.said (.failed e)⟩
    | .ok _ =>
      let (collected, next) := Occurrence.collect processed.facts next
      let outcome := match collected with
        | .ok occurrences => Outcome.diagnosed occurrences
        | .error e => .unassembled e
      ⟨processed.passivate, outcome, next, journal ++ outcome.said⟩

end DiagnosisSession
end SlowRequest
