import SlowRequest.Engine.Session
import SlowRequest.Quoted
namespace SlowRequest

namespace RuleGraph

variable {V E : Type}

def quotedOrder (g : RuleGraph V E) : String := bracketedList (g.order.map quotedName)

def describe (g : RuleGraph V E) : String :=
  "RuleGraph \x7b root_tag: " ++ quotedName g.rootTag ++ ", order: " ++ g.quotedOrder ++ " \x7d"

def positions (g : RuleGraph V E) (rules : List (Rule V E)) : List Nat :=
  g.order.filterMap fun name => rules.findIdx? (·.descriptor.name == name)

def registered (g : RuleGraph V E) (rules : List (Rule V E)) : List Log.Event :=
  [⟨.debug, .graph, "Rule dependency order resolved",
      [("order", .string (bracketedList ((g.positions rules).map toString)))]⟩,
    ⟨.info, .graph, "📐 Rule graph registered with " ++ toString g.rules.length ++ " rules",
      [("root_tag", .string g.rootTag), ("order", .string g.quotedOrder)]⟩]

end RuleGraph

namespace ScheduledRule

variable {V E : Type}

def sayAt (r : ScheduledRule V E) (vars : Variables) (f : FactForest V)
    (anchor : FactId) : List Log.Event × Nat :=
  match f.bind? r.descriptor.inputs vars anchor with
  | some b => if r.condition b then (r.report b, 1) else ([], 0)
  | none => ([], 0)

def evaluated (r : ScheduledRule V E) (fired : Nat) : Log.Event :=
  ⟨.trace, .session, "Rule evaluated",
    [("rule", .string r.descriptor.name), ("fired", .natural fired)]⟩

def sayEach (r : ScheduledRule V E) (vars : Variables) :
    List FactId → FactForest V → Nat → List Log.Event
  | [], _, fired => [r.evaluated fired]
  | anchor :: rest, f, fired =>
    match r.fireAt vars f anchor with
    | .error _ => []
    | .ok values =>
      let (said, times) := r.sayAt vars f anchor
      said ++ r.sayEach vars rest (f.insertAll r.descriptor.output anchor values)
        (fired + times)

def say (r : ScheduledRule V E) (vars : Variables) (f : FactForest V) : List Log.Event :=
  r.sayEach vars (f.ids r.anchor) f 0

end ScheduledRule

def sayAll {V E : Type} (vars : Variables) :
    List (ScheduledRule V E) → FactForest V → List Log.Event
  | [], f => [⟨.debug, .session, "Session call completed", [("facts", .natural f.size)]⟩]
  | r :: rs, f =>
    r.say vars f ++
      match r.fire vars f with
      | (f, none) => sayAll vars rs f
      | (_, some _) => []

/-- What a call says; a call that is refused says nothing. -/
def Session.journal {V E : Type} (s : Session V E) : List Log.Event :=
  if s.state = .activated then sayAll s.vars s.graph.rules s.facts else []

end SlowRequest
