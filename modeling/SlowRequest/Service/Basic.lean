import SlowRequest.Service.Diagnosis
import SlowRequest.Service.Settings
/-!
# The diagnosis service

A bounded queue of requests and a fixed pool of workers. The service moves in steps of single
parties, so that every run of it is a list of steps. An offer that came while the service was
running may still be sent after it was closed.
-/
namespace SlowRequest

inductive Admission where
  /-- The service was closed when the offer came. -/
  | shutOut
  /-- Still without a place in the queue after so many attempts. -/
  | trying (attempts : Nat)
  /-- Sent to the queue; the producer has not been told yet. -/
  | sent
  deriving DecidableEq, Repr

structure Offer where
  request : DiagnosisRequest
  admission : Admission

inductive Task where
  | idle
  | holding (request : DiagnosisRequest)
  /-- The outcome is counted, and the listeners are still to be told. -/
  | telling (request : DiagnosisRequest) (outcome : Outcome)
  /-- The worker has ended. -/
  | gone

namespace Task

def isIdle : Task → Bool
  | idle => true
  | _ => false

def isGone : Task → Bool
  | gone => true
  | _ => false

end Task

structure Worker where
  session : DiagnosisSession
  task : Task

/-- A log event with the request it concerns, when a worker speaks. -/
structure LogEntry where
  event : Log.Event
  request : Option UInt64
  deriving Repr

structure Service where
  settings : ServiceSettings
  /-- Offers whose producers wait for the answer. -/
  offered : List Offer
  /-- Oldest first. -/
  queue : List DiagnosisRequest
  workers : List Worker
  /-- Whether requests may still be offered. -/
  isRunning : Bool
  /-- Whether the owner has seen all workers end. -/
  isStopped : Bool
  metrics : Metrics
  audience : Audience
  /-- What the audience was told, in order. -/
  notices : List Notice
  /-- The number that the next occurrence gets. -/
  next : UInt64
  log : List LogEntry

namespace Service

/-- One move of a producer, of a worker or of the owner. -/
inductive Step where
  | offer (request : DiagnosisRequest)
  /-- The offer at a place gets into the queue. -/
  | send (place : Nat)
  /-- An attempt of the offer at a place ends in vain. -/
  | retry (place : Nat)
  /-- The producer learns that its request was admitted. -/
  | confirm (place : Nat)
  /-- The producer learns that its request was rejected. -/
  | turnAway (place : Nat)
  /-- The worker takes the oldest request. -/
  | take (worker : Nat)
  | diagnose (worker : Nat)
  | tell (worker : Nat)
  | leave (worker : Nat)
  | close
  /-- The owner has waited for all workers. -/
  | join

def speak (s : Service) (events : List Log.Event) : Service :=
  { s with log := s.log ++ events.map (⟨·, none⟩) }

def speakFor (s : Service) (r : DiagnosisRequest) (events : List Log.Event) : Service :=
  { s with log := s.log ++ events.map (⟨·, some r.invocation⟩) }

def attempts (s : Service) : Nat := s.settings.enqueueAttempts.toNat

/-- Whether any worker is left to receive requests. -/
def isConnected (s : Service) : Bool := s.workers.any fun w => !w.task.isGone

/-- Whether a request can be sent at once. A queue without places hands a request over to a
worker that waits for one. -/
def hasRoom (s : Service) : Bool :=
  s.isConnected &&
    (decide (s.queue.length < s.settings.queueCapacity)
      || (s.settings.queueCapacity == 0 && s.queue.isEmpty && s.workers.any (·.task.isIdle)))

/-- Whether requests may still be sent: by new offers or by those under way. -/
def hasSenders (s : Service) : Bool :=
  s.isRunning || s.offered.any fun o => decide (o.admission ≠ .shutOut)

def retrying (attempt : Nat) : Log.Event :=
  ⟨.debug, .service, "Diagnosis queue full, retrying", [("attempt", .natural attempt)]⟩

def queueFull (settings : ServiceSettings) : Log.Event where
  level := .warn
  source := .service
  message := "⚠️ Diagnosis rejected: queue full"
  fields :=
    [("attempts", .natural settings.enqueueAttempts.toNat),
      ("timeout_ms", .natural settings.enqueueTimeout.toNat)]

def shutDown : Log.Event :=
  ⟨.warn, .service, "⚠️ Diagnosis rejected: service is shut down", []⟩

def counts (m : Metrics) : List (String × Json.Value) :=
  [("accepted", .natural m.accepted.toNat), ("rejected", .natural m.rejected.toNat),
    ("diagnosed", .natural m.diagnosed.toNat), ("failed", .natural m.failed.toNat),
    ("results", .natural m.results.toNat)]

def stopped (m : Metrics) : Log.Event :=
  ⟨.info, .service, "🛑 Diagnosis service stopped", counts m⟩

def sendOffer (s : Service) (place : Nat) : Offer → Option Service
  | ⟨r, .trying n⟩ =>
    if n < s.attempts && s.hasRoom then
      some { s with offered := s.offered.set place ⟨r, .sent⟩, queue := s.queue ++ [r] }
    else none
  | _ => none

def retryOffer (s : Service) (place : Nat) : Offer → Option Service
  | ⟨r, .trying n⟩ =>
    if n < s.attempts && s.isConnected then
      some ({ s with offered := s.offered.set place ⟨r, .trying (n + 1)⟩ }.speak [retrying (n + 1)])
    else none
  | _ => none

def confirmOffer (s : Service) (place : Nat) : Offer → Option Service
  | ⟨_, .sent⟩ =>
    some { s with offered := s.offered.eraseIdx place, metrics := s.metrics.accept }
  | _ => none

def refusal? (s : Service) : Admission → Option Log.Event
  | .shutOut => some shutDown
  | .trying n => if n < s.attempts && s.isConnected then none else some (queueFull s.settings)
  | .sent => none

def turnAwayOffer (s : Service) (place : Nat) (o : Offer) : Option Service :=
  (s.refusal? o.admission).map fun said =>
    { s with offered := s.offered.eraseIdx place, metrics := s.metrics.reject }.speak [said]

def setWorker (s : Service) (i : Nat) (session : DiagnosisSession) (task : Task) : Service :=
  { s with workers := s.workers.set i ⟨session, task⟩ }

def takeBy (s : Service) (i : Nat) : Worker → Option Service
  | ⟨session, .idle⟩ =>
    match s.queue with
    | r :: queue => some ({ s with queue }.setWorker i session (.holding r))
    | [] => none
  | _ => none

def diagnoseBy (s : Service) (i : Nat) : Worker → Option Service
  | ⟨session, .holding r⟩ =>
    let d := session.diagnose s.next r
    some (({ s with metrics := d.outcome.count s.metrics, next := d.next }.setWorker i d.session
      (.telling r d.outcome)).speakFor r d.journal)
  | _ => none

def announce (s : Service) (r : DiagnosisRequest) (outcome : Outcome) : Service :=
  let told := (outcome.notice?.map fun n => Audience.notify n s.audience).getD (s.audience, [])
  { s with audience := told.1, notices := s.notices ++ outcome.notice?.toList }.speakFor r told.2

def tellBy (s : Service) (i : Nat) : Worker → Option Service
  | ⟨session, .telling r outcome⟩ => some ((s.setWorker i session .idle).announce r outcome)
  | _ => none

/-- A worker ends once the queue is empty and nothing more can be sent. -/
def leaveBy (s : Service) (i : Nat) : Worker → Option Service
  | ⟨session, .idle⟩ =>
    if s.queue.isEmpty && !s.hasSenders then some (s.setWorker i session .gone) else none
  | _ => none

/-- The service after a step; `none` when the step cannot be taken. -/
def step (s : Service) : Step → Option Service
  | .offer r =>
    some { s with offered := s.offered ++ [⟨r, if s.isRunning then .trying 0 else .shutOut⟩] }
  | .send place => s.offered[place]?.bind (s.sendOffer place)
  | .retry place => s.offered[place]?.bind (s.retryOffer place)
  | .confirm place => s.offered[place]?.bind (s.confirmOffer place)
  | .turnAway place => s.offered[place]?.bind (s.turnAwayOffer place)
  | .take i => s.workers[i]?.bind (s.takeBy i)
  | .diagnose i => s.workers[i]?.bind (s.diagnoseBy i)
  | .tell i => s.workers[i]?.bind (s.tellBy i)
  | .leave i => s.workers[i]?.bind (s.leaveBy i)
  | .close => if s.isRunning then some { s with isRunning := false } else none
  | .join =>
    if s.isRunning || s.isStopped || s.isConnected then none
    else some ({ s with isStopped := true }.speak [stopped s.metrics])

def run (s : Service) : List Step → Option Service
  | [] => some s
  | st :: steps => (s.step st).bind fun t => t.run steps

def unmanned (settings : ServiceSettings) (audience : Audience) : Service where
  settings
  offered := []
  queue := []
  workers := []
  isRunning := true
  isStopped := false
  metrics := .zero
  audience
  notices := []
  next := 1
  log := []

/-- A service whose workers wait for requests. -/
def ofGraph (settings : ServiceSettings) (graph : DiagnosisGraph) (audience : Audience) :
    Service :=
  { unmanned settings audience with
    workers := List.replicate settings.workers ⟨Session.new graph, .idle⟩ }

end Service
end SlowRequest
