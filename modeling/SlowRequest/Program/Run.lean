import SlowRequest.Config.Basic
import SlowRequest.Log.Filter
import SlowRequest.Program.Loading
import SlowRequest.Schema.Occurrences
import SlowRequest.Service.Start
namespace SlowRequest.Program

structure Setup where
  configuration : Configuration
  machine : Machine
  processors : Nat
  /-- The time given to calls that tell none. -/
  now : Instant
  /-- The files of the trace directory in any order, or why it cannot be read. -/
  files : Except String (List TextFile)

/-- Why a run comes to no end. -/
inductive Fault where
  | unreadableFilter
  | unreadableDirectory (reason : String)
  /-- The store cannot make room for its results. -/
  | block (e : BlockFault)
  | start (e : StartFault)
  deriving Repr

namespace Fault

def message : Fault → String
  | unreadableFilter => "the log filter cannot be read"
  | unreadableDirectory reason => reason
  | block e => e.message
  | start e => e.message

def isReported : Fault → Bool
  | unreadableFilter | block _ | start (.block _) => false
  | unreadableDirectory _ | start (.definition _) | start (.spawn _) => true

/-- The code that a run exits with, unless it is stopped before it can exit. -/
def exitCode? : Fault → Option UInt32
  | unreadableDirectory _ | start (.definition _) | start (.spawn _) => some 1
  | unreadableFilter | block .tooLarge | start (.block .tooLarge) => some 101
  | block (.outOfMemory _) | start (.block (.outOfMemory _)) => none

end Fault

def say (level : Log.Level) (message : String) (fields : List (String × Json.Value)) :
    Log.Event := ⟨level, .commandLine, message, fields⟩

def configured (c : Configuration) : Log.Event :=
  say .info "🔧 Diagnosis configuration loaded"
    [("baseline", .float c.baseline), ("trace_dir", .string c.traceDirectory)]

def failed (e : Fault) : Log.Event := say .error ("💥 Diagnosis run failed: " ++ e.message) []

def offer (setup : Setup) (s : Service) (loaded : LoadedTrace) : Service :=
  match loaded.trace.root.toTree setup.now with
  | .error e =>
    s.speak [say .warn ("⚠️ Skipping " ++ loaded.path ++ ": " ++ e.message) []]
  | .ok tree =>
    let request : DiagnosisRequest := ⟨tree, setup.configuration.baseline⟩
    if request.isSlow then
      let (s, accepted) := s.process request
      let s := if accepted then s
        else s.speak
          [say .warn ("⚠️ Trace " ++ loaded.path ++ " rejected by the diagnosis queue") []]
      s.settle fun _ => false
    else s.speak [say .debug ("Trace " ++ loaded.path ++ " is faster than the baseline") []]

def listed (o : Occurrence) : Log.Event :=
  say .info o.write
    [("occurrence", .natural o.id.toNat),
      ("request_root", .natural o.requestRoot.invocationId.toNat),
      ("cause_type", .string o.causeStructure.type.label)]

def summary (s : Service) : List Log.Event :=
  let stored := ((Audience.store? s.audience).map fun x => x.occurrences).getD []
  let requests := ((Audience.index? s.audience).map fun x => x.size).getD 0
  say .info "📊 Diagnosis run finished" (Service.counts s.metrics) :: stored.map listed ++
    [say .info ("🏁 " ++ toString requests ++ " request roots with problem occurrences") []]

def audience (c : Configuration) (names : NameTable) : Audience :=
  [.printer names, .store (.new c.resultCapacity), .index .empty]

def loaded (c : Configuration) (traces : List LoadedTrace) : Log.Event :=
  say .info ("📂 Loaded " ++ toString traces.length ++ " trace files from " ++ c.traceDirectory) []

def early (setup : Setup) : List Log.Event :=
  let c := setup.configuration
  match setup.files with
  | .ok files =>
    let (traces, warnings) := loadTraces c.traceDirectory files
    configured c :: warnings ++ [loaded c traces]
  | .error _ => [configured c]

def storeSize (c : Configuration) (m : Machine) : Nat :=
  max c.resultCapacity 1 * m.occurrenceSize

/-- Makes the store and starts the service. -/
def openService [NaNSums] (setup : Setup) (traces : List LoadedTrace) :
    Except Fault Service := do
  let c := setup.configuration
  let m := setup.machine
  let store := storeSize c m
  if let some e := m.blockFault? store then throw (.block e)
  (Service.start (m.holding store) (c.service setup.processors) (diagnosisRules c.thresholds)
    (audience c (namesOf traces))).mapError .start

/-- The service after a run, with all that was said. -/
def run [NaNSums] (setup : Setup) : Except Fault Service := do
  let files ← setup.files.mapError .unreadableDirectory
  let (traces, _) := loadTraces setup.configuration.traceDirectory files
  let s ← openService setup traces
  let s := { s with log := (early setup).map (⟨·, none⟩) ++ s.log }
  let s := (traces.foldl (offer setup) s).shutdown
  return s.speak (summary s)

def Fault.preceding [NaNSums] (setup : Setup) : Fault → List Log.Event
  | unreadableFilter => []
  | unreadableDirectory _ | block _ => early setup
  | start _ => early setup ++ Service.registration (diagnosisRules setup.configuration.thresholds)

/-- What a run says, and why it did not come to its end. -/
def entries [NaNSums] (setup : Setup) : List LogEntry × Option Fault :=
  match run setup with
  | .ok s => (s.log, none)
  | .error e =>
    let last := if e.isReported then [failed e] else []
    ((e.preceding setup ++ last).map (⟨·, none⟩), some e)

/-! ## The log -/

def filter? (c : Configuration) : Except Fault Log.Filter :=
  match Log.Filter.read? c.logging.levelFilter with
  | some f => .ok f
  | none => .error .unreadableFilter

/-- The work on a request. The first worker does all of it, as requests come one at a time. -/
def scope (request : UInt64) : Log.Scope where
  level := .info
  source := .service
  name := "diagnosis"
  fields := [("worker", 0), ("request_root", request)]

def visible (filter : Log.Filter) (log : List LogEntry) : List LogEntry :=
  log.filter fun e => filter.passes e.event (e.request.map scope)

def shownRequest (filter : Log.Filter) (e : LogEntry) : Option UInt64 :=
  e.request.filter fun request => filter.follows (scope request)

end SlowRequest.Program
