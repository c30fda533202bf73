import SlowRequest.Diagnosis.RuleSet
import SlowRequest.Results.Report
import SlowRequest.Results.RootIndex
import SlowRequest.Results.Store
namespace SlowRequest

abbrev DiagnosisFailure := SessionError DiagnosisError

namespace DiagnosisFailure

def text (e : DiagnosisFailure) : String := e.message DiagnosisError.message

end DiagnosisFailure

inductive Notice where
  | result (occurrence : Occurrence)
  | results (batch : List Occurrence)
  | failure (error : DiagnosisFailure)

inductive Listener where
  | printer (names : NameTable)
  | store (store : OccurrenceStore)
  | index (index : RootIndex)

namespace Listener

def printed (names : NameTable) (o : Occurrence) : Log.Event :=
  ⟨.info, .report, "🔎 " ++ names.report o, []⟩

/-- A failure that no rule is to blame for only means that the diagnosis was skipped. -/
def printedFailure (e : DiagnosisFailure) : Log.Event :=
  match e.rule? with
  | some rule =>
    ⟨.error, .report, "❌ Diagnosis failed: " ++ DiagnosisFailure.text e, [("rule", .string rule)]⟩
  | none => ⟨.warn, .report, "⚠️ Diagnosis skipped: " ++ DiagnosisFailure.text e, []⟩

def evictions (s : OccurrenceStore) : List Log.Event :=
  s.evicted?.toList.map fun o =>
    ⟨.debug, .results, "Result store full, dropping oldest occurrence",
      [("evicted", .natural o.id.toNat)]⟩

def takeOne (l : Listener) (o : Occurrence) : Listener × List Log.Event :=
  match l with
  | printer names => (printer names, [printed names o])
  | store s => (store (s.insert o), evictions s)
  | index x => (index (x.insert o), [])

def takeAll (l : Listener) : List Occurrence → Listener × List Log.Event
  | [] => (l, [])
  | o :: os =>
    let (l, first) := l.takeOne o
    let (l, rest) := l.takeAll os
    (l, first ++ rest)

def takeFailure (l : Listener) (e : DiagnosisFailure) : Listener × List Log.Event :=
  match l with
  | printer names => (printer names, [printedFailure e])
  | l => (l, [])

def receive (l : Listener) : Notice → Listener × List Log.Event
  | .result o => l.takeOne o
  | .results os => l.takeAll os
  | .failure e => l.takeFailure e

def store? : Listener → Option OccurrenceStore
  | store s => some s
  | _ => none

def index? : Listener → Option RootIndex
  | index x => some x
  | _ => none

end Listener

abbrev Audience := List Listener

namespace Audience

def notify (notice : Notice) : Audience → Audience × List Log.Event
  | [] => ([], [])
  | l :: ls =>
    let (l, first) := l.receive notice
    let (ls, rest) := notify notice ls
    (l :: ls, first ++ rest)

def store? (ls : Audience) : Option OccurrenceStore := ls.findSome? Listener.store?

def index? (ls : Audience) : Option RootIndex := ls.findSome? Listener.index?

end Audience
end SlowRequest
