import SlowRequest.Json.Value
namespace SlowRequest.Log

inductive Level where
  | error
  | warn
  | info
  | debug
  | trace
  deriving DecidableEq, Repr

namespace Level

def label : Level → String
  | error => "ERROR"
  | warn => "WARN"
  | info => "INFO"
  | debug => "DEBUG"
  | trace => "TRACE"

def detail : Level → Nat
  | error => 1
  | warn => 2
  | info => 3
  | debug => 4
  | trace => 5

end Level

inductive Source where
  | commandLine
  | retention
  | graph
  | session
  | operations
  | problemContext
  | problemCause
  | causeStructure
  | report
  | results
  | service
  | processor
  deriving DecidableEq, Repr

def Source.target : Source → String
  | commandLine => "trace_diagnosis"
  | retention => "trace_diagnosis::logging"
  | graph => "trace_diagnosis::engine::graph"
  | session => "trace_diagnosis::engine::session"
  | operations => "trace_diagnosis::rules::time_wasting_operations"
  | problemContext => "trace_diagnosis::rules::problem_context"
  | problemCause => "trace_diagnosis::rules::problem_cause"
  | causeStructure => "trace_diagnosis::rules::cause_structure"
  | report => "trace_diagnosis::results::notification"
  | results => "trace_diagnosis::results::store"
  | service => "trace_diagnosis::service::diagnosis_service"
  | processor => "trace_diagnosis::service::processor"

structure Event where
  level : Level
  source : Source
  message : String
  fields : List (String × Json.Value)
  deriving Repr

def Event.fieldNames (e : Event) : List String := "message" :: e.fields.map (·.1)

/-- A stretch of work that events fall within. -/
structure Scope where
  level : Level
  source : Source
  name : String
  fields : List (String × UInt64)
  deriving Repr

end SlowRequest.Log
