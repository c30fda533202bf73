import SlowRequest.Machine
import SlowRequest.Service.Run
namespace SlowRequest

inductive StartFault where
  | definition (e : DefinitionError)
  | block (e : BlockFault)
  | spawn (reason : String)
  deriving Repr

def StartFault.message : StartFault → String
  | definition e => "Invalid diagnosis rules: " ++ e.message
  | block e => e.message
  | spawn reason => "Failed to spawn diagnosis worker: " ++ reason

namespace Service

/-- Closes the queue and waits until the workers have left. -/
def dismiss (s : Service) : Service :=
  ((s.step .close).getD s).settle fun _ => false

/-- Starts so many workers more. If one is refused, those before it are dismissed. -/
def hire (m : Machine) (session : DiagnosisSession) : Nat → Service →
    Except (Service × String) Service
  | 0, s => .ok s
  | n + 1, s =>
    match m.refusal? s.workers.length with
    | some reason => .error (s.dismiss, reason)
    | none => hire m session n { s with workers := s.workers ++ [⟨session, .idle⟩] }

def started (settings : ServiceSettings) : Log.Event where
  level := .info
  source := .service
  message := "🚀 Diagnosis service started"
  fields :=
    [("workers", .natural settings.workers), ("queue_capacity", .natural settings.queueCapacity)]

def registration (rules : List DiagnosisRule) : List Log.Event :=
  match RuleGraph.register Tag.root rules with
  | .ok graph => graph.registered rules
  | .error _ => []

/-- The blocks of a service: the places of its queue and the handles of its workers. -/
def blocks (m : Machine) (settings : ServiceSettings) : List Nat :=
  [settings.queueCapacity * m.placeSize, settings.workers * m.handleSize]

def start (m : Machine) (settings : ServiceSettings) (rules : List DiagnosisRule)
    (audience : Audience) : Except StartFault Service := do
  let graph ← (RuleGraph.register Tag.root rules).mapError .definition
  if let some e := m.fault? (blocks m settings) then throw (.block e)
  let opened := (unmanned settings audience).speak (graph.registered rules)
  let s ← (opened.hire m (.new graph) settings.workers).mapError (.spawn ·.2)
  return s.speak [started settings]

end Service
end SlowRequest
