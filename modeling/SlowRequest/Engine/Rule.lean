import SlowRequest.Log.Event
namespace SlowRequest

abbrev Tag := String

/-- Session variables by name; the first entry of a name counts. -/
abbrev Variables := List (String × Float)

inductive Quantity where
  | single
  | multiple
  deriving DecidableEq, Repr

structure Input where
  name : String
  isOptional : Bool
  deriving DecidableEq, Repr

structure Descriptor where
  name : String
  inputs : List Input
  parameters : List Input
  output : Tag
  quantity : Quantity
  deriving DecidableEq, Repr

def Input.needed (name : String) : Input := ⟨name, false⟩

namespace Descriptor

def requiredInputs (d : Descriptor) : List Tag :=
  (d.inputs.filter fun i => !i.isOptional).map Input.name

def reads (d : Descriptor) (tag : Tag) : Bool := d.inputs.any (·.name == tag)

end Descriptor

/-- The inputs of one firing: the root value of the session and, per declared tag, the fact
bound. -/
structure Binding (V : Type) where
  root : V
  inputs : List (Tag × Option V)
  vars : Variables

/-- Why a firing fails: on the engine's side, or for a reason `E` of the rule's own. -/
inductive ActionError (E : Type) where
  | missingVariable (name : String)
  | unboundInput (tag : Tag)
  /-- A rule declared to write one value wrote more. -/
  | tooMany (tag : Tag) (produced : Nat)
  | rule (cause : E)
  deriving Repr, DecidableEq

def ActionError.message {E : Type} (causeMessage : E → String) : ActionError E → String
  | missingVariable name => "Session variable '" ++ name ++ "' is not set"
  | unboundInput tag => "Input tag '" ++ tag ++ "' is not bound"
  | tooMany tag produced =>
    "Rule declared a single '" ++ tag ++ "' value but produced " ++ toString produced
  | rule cause => causeMessage cause

namespace Binding

variable {V E : Type}

/-- The fact bound to `tag`; `none` also for an optional input that nothing was bound to. -/
def get? (b : Binding V) (tag : Tag) : Option V := (b.inputs.lookup tag).join

def require (b : Binding V) (tag : Tag) : Except (ActionError E) V :=
  match b.get? tag with
  | some v => .ok v
  | none => .error (.unboundInput tag)

def variableNamed? (b : Binding V) (name : String) : Option Float := b.vars.lookup name

def requireVariable (b : Binding V) (name : String) : Except (ActionError E) Float :=
  match b.variableNamed? name with
  | some x => .ok x
  | none => .error (.missingVariable name)

end Binding

inductive Output (V : Type) where
  | nothing
  | single (value : V)
  | multiple (values : List V)
  deriving Repr, DecidableEq

def Output.values {V : Type} : Output V → List V
  | nothing => []
  | single v => [v]
  | multiple vs => vs

structure Rule (V E : Type) where
  descriptor : Descriptor
  /-- Asked once all required inputs are bound. -/
  condition : Binding V → Bool
  action : Binding V → Except (ActionError E) (Output V)
  /-- What a firing says in the log. -/
  report : Binding V → List Log.Event

end SlowRequest
