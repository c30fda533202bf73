import SlowRequest.Decimal.Notation
import SlowRequest.Diagnosis.Thresholds
import SlowRequest.Service.Settings
namespace SlowRequest

inductive LogRotation where
  | minutely
  | hourly
  | daily
  | never
  deriving DecidableEq, Repr

structure LogSettings where
  directory : String
  /-- Directives of the log filter. -/
  levelFilter : String
  rotation : LogRotation
  /-- Log files older than this are removed; zero keeps all. -/
  retentionDays : Nat
  deriving Repr

def LogSettings.default : LogSettings := ⟨"logs", "info,trace_diagnosis=info", .daily, 30⟩

structure Configuration where
  /-- `none` stands for one worker per processor. -/
  workers : Option Nat
  queueCapacity : Nat
  enqueueTimeout : UInt64
  enqueueAttempts : UInt32
  resultCapacity : Nat
  /-- Requests up to this duration are not diagnosed. -/
  baseline : Float
  thresholds : Thresholds
  traceDirectory : String
  logging : LogSettings
  deriving Repr

/-- A setting that is refused, with the value given where the message shows it. -/
inductive InvalidSetting where
  | noWorkers
  | noQueue
  | noAttempts
  | baseline (x : Float)
  | proportion (x : Float)
  | sigmaFactor (x : Float)
  deriving DecidableEq, Repr

namespace InvalidSetting

def reason : InvalidSetting → String
  | noWorkers => "service.session_workers must be at least 1"
  | noQueue => "service.queue_capacity must be at least 1"
  | noAttempts => "service.enqueue_attempts must be at least 1"
  | baseline x => "thresholds.baseline must be positive, got " ++ Decimal.plain x
  | proportion x => "thresholds.proportion must be in (0, 1], got " ++ Decimal.plain x
  | sigmaFactor x => "thresholds.sigma_factor must not be negative, got " ++ Decimal.plain x

def message (e : InvalidSetting) : String := "Invalid configuration: " ++ e.reason

end InvalidSetting

namespace Configuration

def default : Configuration where
  workers := none
  queueCapacity := 100
  enqueueTimeout := 50
  enqueueAttempts := 3
  resultCapacity := 1000
  baseline := 1000.0
  thresholds := .default
  traceDirectory := "traces"
  logging := .default

/-- The first setting that is refused. Comparisons fail for a value that is not a number. -/
def fault? (c : Configuration) : Option InvalidSetting :=
  if c.workers = some 0 then some .noWorkers
  else if c.queueCapacity = 0 then some .noQueue
  else if c.enqueueAttempts = 0 then some .noAttempts
  else if ¬ 0.0 < c.baseline then some (.baseline c.baseline)
  else if ¬ (0.0 < c.thresholds.proportion ∧ c.thresholds.proportion ≤ 1.0) then
    some (.proportion c.thresholds.proportion)
  else if ¬ 0.0 ≤ c.thresholds.sigmaFactor then some (.sigmaFactor c.thresholds.sigmaFactor)
  else none

def service (c : Configuration) (processors : Nat) : ServiceSettings where
  workers := c.workers.getD processors
  queueCapacity := c.queueCapacity
  enqueueTimeout := c.enqueueTimeout
  enqueueAttempts := c.enqueueAttempts
  resultCapacity := c.resultCapacity

end Configuration
end SlowRequest
