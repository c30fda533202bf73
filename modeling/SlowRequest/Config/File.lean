import SlowRequest.Config.Basic
import SlowRequest.Toml.Reader
import SlowRequest.Word
/-!
# Configuration files

A configuration is written in TOML, in three sections that may all be left out. Keys that no
section knows are passed over. A section may also be given as an array of all its settings.
-/
namespace SlowRequest

inductive ConfigFault where
  /-- Not TOML, or a setting of the wrong type. -/
  | malformed
  | invalid (setting : InvalidSetting)
  deriving DecidableEq, Repr

def ConfigFault.message : ConfigFault → String
  | malformed => "Failed to parse config file"
  | invalid setting => setting.message

namespace Configuration

/-- Changes a configuration by the value of one setting; `none` for a value of another type. -/
abbrev Setter := Toml.Value → Configuration → Option Configuration

def setter {α : Type} (read : Toml.Value → Option α)
    (set : α → Configuration → Configuration) : Setter := fun v c => (read v).map (set · c)

def count : Toml.Value → Option Nat := Toml.Value.natural? Word.limit64

def word32 : Toml.Value → Option Nat := Toml.Value.natural? Word.limit32

def rotationNamed? : String → Option LogRotation
  | "minutely" => some .minutely
  | "hourly" => some .hourly
  | "daily" => some .daily
  | "never" => some .never
  | _ => none

/-- A rotation by its name, which may also stand as a key with nothing in it. -/
def rotation? : Toml.Value → Option LogRotation
  | .string name | .table [(name, .table [])] | .table [(name, .array [])] => rotationNamed? name
  | _ => none

abbrev Section := List (String × Setter)

def serviceSection : Section := [
  ("session_workers", setter count fun x c => { c with workers := some x }),
  ("queue_capacity", setter count fun x c => { c with queueCapacity := x }),
  ("enqueue_timeout_ms", setter count fun x c => { c with enqueueTimeout := UInt64.ofNat x }),
  ("enqueue_attempts", setter word32 fun x c => { c with enqueueAttempts := UInt32.ofNat x }),
  ("result_capacity", setter count fun x c => { c with resultCapacity := x }),
  ("trace_dir", setter Toml.Value.string? fun x c => { c with traceDirectory := x })]

def threshold {α : Type} (read : Toml.Value → Option α) (set : α → Thresholds → Thresholds) :
    Setter := setter read fun x c => { c with thresholds := set x c.thresholds }

def thresholdSection : Section := [
  ("baseline", setter Toml.Value.float? fun x c => { c with baseline := x }),
  ("proportion", threshold Toml.Value.float? fun x th => { th with proportion := x }),
  ("min_calls_time_wasting", threshold count fun x th => { th with minCallsTimeWasting := x }),
  ("min_calls_n_plus_one", threshold count fun x th => { th with minCallsNPlusOne := x }),
  ("sigma_factor", threshold Toml.Value.float? fun x th => { th with sigmaFactor := x }),
  ("max_merge_rounds", threshold count fun x th => { th with maxMergeRounds := x }),
  ("recursion_call_budget", threshold count fun x th =>
    { th with recursionCallBudget := some x })]

def logSetting {α : Type} (read : Toml.Value → Option α) (set : α → LogSettings → LogSettings) :
    Setter := setter read fun x c => { c with logging := set x c.logging }

def loggingSection : Section := [
  ("log_dir", logSetting Toml.Value.string? fun x l => { l with directory := x }),
  ("level_filter", logSetting Toml.Value.string? fun x l => { l with levelFilter := x }),
  ("rotation", logSetting rotation? fun x l => { l with rotation := x }),
  ("retention_days", logSetting word32 fun x l => { l with retentionDays := x })]

def applySettings (known : Section) :
    List (String × Toml.Value) → Configuration → Option Configuration
  | [], c => some c
  | (key, v) :: rest, c =>
    match known.lookup key with
    | none => applySettings known rest c
    | some set => do
      let c ← set v c
      applySettings known rest c

def applySection (known : Section) (v : Toml.Value) (c : Configuration) :
    Option Configuration :=
  match v with
  | .table entries => applySettings known entries c
  | .array xs =>
    if xs.length < known.length then none
    else applySettings known ((known.map Prod.fst).zip xs) c
  | _ => none

def sections : Section := [
  ("service", applySection serviceSection),
  ("thresholds", applySection thresholdSection),
  ("logging", applySection loggingSection)]

/-- Reads the text of a configuration file; settings left out keep their defaults. -/
def read (text : String) : Except ConfigFault Configuration :=
  match (Toml.read? text).bind fun entries => applySettings sections entries default with
  | none => .error .malformed
  | some c =>
    match c.fault? with
    | some e => .error (.invalid e)
    | none => .ok c

end Configuration
end SlowRequest
