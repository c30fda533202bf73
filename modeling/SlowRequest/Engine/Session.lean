import SlowRequest.Engine.FactForest
import SlowRequest.Engine.RuleGraph
/-!
# Sessions

A session is activated with a root value and variables, called once to fire every rule in order,
and passivated to be used again. A call that fails keeps the facts written before the failure.
-/
namespace SlowRequest

inductive SessionState where
  | idle
  | activated
  | processed
  deriving DecidableEq, Repr

def SessionState.label : SessionState → String
  | idle => "IDLE"
  | activated => "ACTIVATED"
  | processed => "PROCESSED"

inductive SessionError (E : Type) where
  | illegalState (operation : String) (state : SessionState)
  | ruleExecution (rule : String) (source : ActionError E)
  deriving Repr, DecidableEq

namespace SessionError

variable {E : Type}

def message (causeMessage : E → String) : SessionError E → String
  | illegalState operation state =>
    "Cannot " ++ operation ++ " a session in state " ++ state.label
  | ruleExecution rule source => "Rule '" ++ rule ++ "' failed: " ++ source.message causeMessage

def rule? : SessionError E → Option String
  | illegalState .. => none
  | ruleExecution rule _ => some rule

end SessionError

namespace FactForest

variable {V : Type}

/-- The fact for one declared input: the nearest on the lineage, or, for an optional input that
has none there, the oldest anywhere. -/
def bindInput (f : FactForest V) (anchor : FactId) (input : Input) : Option V :=
  let found := (f.nearest? anchor input.name).bind f.get?
  let found := if input.isOptional then found.or (f.ofTag input.name).head? else found
  found.map Fact.value

def bound? (f : FactForest V) (anchor : FactId) (input : Input) : Option (Tag × Option V) :=
  match f.bindInput anchor input with
  | some v => some (input.name, some v)
  | none => if input.isOptional then some (input.name, none) else none

def bind? (f : FactForest V) (inputs : List Input) (vars : Variables) (anchor : FactId) :
    Option (Binding V) := do
  let root ← f.root?
  let bound ← inputs.mapM (f.bound? anchor)
  return ⟨root.value, bound, vars⟩

end FactForest

namespace ScheduledRule

variable {V E : Type}

def missingVariable? (r : ScheduledRule V E) (b : Binding V) : Option String :=
  (r.descriptor.parameters.find? fun v =>
    !v.isOptional && (b.variableNamed? v.name).isNone).map Input.name

/-- What the rule writes for one binding: no values when its condition does not hold. -/
def fireWith (r : ScheduledRule V E) (b : Binding V) : Except (ActionError E) (List V) :=
  match r.missingVariable? b with
  | some name => .error (.missingVariable name)
  | none =>
    if r.condition b then do
      let values := (← r.action b).values
      if r.descriptor.quantity = .single ∧ 1 < values.length then
        .error (.tooMany r.descriptor.output values.length)
      else return values
    else return []

def fireAt (r : ScheduledRule V E) (vars : Variables) (f : FactForest V) (anchor : FactId) :
    Except (ActionError E) (List V) :=
  match f.bind? r.descriptor.inputs vars anchor with
  | some b => r.fireWith b
  | none => .ok []

def fireEach (r : ScheduledRule V E) (vars : Variables) :
    List FactId → FactForest V → FactForest V × Option (SessionError E)
  | [], f => (f, none)
  | anchor :: rest, f =>
    match r.fireAt vars f anchor with
    | .error e => (f, some (.ruleExecution r.descriptor.name e))
    | .ok values => r.fireEach vars rest (f.insertAll r.descriptor.output anchor values)

/-- Fires once for each fact that the anchor holds beforehand. -/
def fire (r : ScheduledRule V E) (vars : Variables) (f : FactForest V) :
    FactForest V × Option (SessionError E) :=
  r.fireEach vars (f.ids r.anchor) f

end ScheduledRule

def fireAll {V E : Type} (vars : Variables) :
    List (ScheduledRule V E) → FactForest V → FactForest V × Option (SessionError E)
  | [], f => (f, none)
  | r :: rs, f =>
    match r.fire vars f with
    | (f, none) => fireAll vars rs f
    | (f, some e) => (f, some e)

structure Session (V E : Type) where
  graph : RuleGraph V E
  state : SessionState
  facts : FactForest V
  vars : Variables

namespace Session

variable {V E : Type}

def new (graph : RuleGraph V E) : Session V E := ⟨graph, .idle, .empty, []⟩

def activate (s : Session V E) (root : V) (vars : Variables) :
    Except (SessionError E) (Session V E) :=
  if s.state = .idle then
    .ok { s with
      state := .activated
      facts := s.facts.insert s.graph.rootTag root none
      vars := vars ++ s.vars }
  else .error (.illegalState "activate" s.state)

def call (s : Session V E) : Session V E × Except (SessionError E) Nat :=
  if s.state = .activated then
    let (facts, failure) := fireAll s.vars s.graph.rules s.facts
    ({ s with state := .processed, facts },
      match failure with
      | none => .ok facts.size
      | some e => .error e)
  else (s, .error (.illegalState "call" s.state))

def passivate (s : Session V E) : Session V E :=
  { s with state := .idle, facts := s.facts.clear, vars := [] }

end Session
end SlowRequest
