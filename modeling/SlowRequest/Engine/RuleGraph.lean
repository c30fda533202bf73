import SlowRequest.Engine.Rule
import SlowRequest.Tally
/-!
# Rule graphs

Rules are put in order once, by the tags they read and write: a rule follows all producers of its
inputs, and of the rules that could come next the one registered first does. The anchor of a rule
is the required input furthest from the root; the rule fires once for each of its facts.
-/
namespace SlowRequest

inductive DefinitionError where
  | noInputs (rule : String)
  | missingProducer (rule : String) (tag : Tag)
  | cycle (rules : List String)
  /-- One name declared as tag and as session variable. -/
  | conflict (rule name : String)
  | duplicateInput (rule name : String)
  | duplicateRule (rule : String)
  | writesRoot (rule : String) (tag : Tag)
  deriving DecidableEq, Repr

namespace DefinitionError

def message : DefinitionError → String
  | noInputs rule => "Rule '" ++ rule ++ "' declares no input tags"
  | missingProducer rule tag =>
    "Rule '" ++ rule ++ "' requires tag '" ++ tag ++ "' but no rule produces it"
  | cycle rules => "Rules form a dependency cycle: " ++ " -> ".intercalate rules
  | conflict rule name =>
    "Rule '" ++ rule ++ "' declares '" ++ name ++ "' both as tag input and as session variable"
  | duplicateInput rule name =>
    "Rule '" ++ rule ++ "' declares input '" ++ name ++ "' more than once"
  | duplicateRule rule => "Rule name '" ++ rule ++ "' is registered twice"
  | writesRoot rule tag => "Rule '" ++ rule ++ "' writes the root tag '" ++ tag ++ "'"

end DefinitionError

def firstRepeated? {α : Type} [DecidableEq α] : List α → List α → Option α
  | _, [] => none
  | seen, x :: xs => if x ∈ seen then some x else firstRepeated? (x :: seen) xs

namespace Descriptor

/-- Variables in order: a name that is also a tag, or one declared before. -/
def variableFault? (d : Descriptor) : List String → List String → Option DefinitionError
  | _, [] => none
  | seen, v :: vs =>
    if d.reads v then some (.conflict d.name v)
    else if v ∈ seen then some (.duplicateInput d.name v)
    else d.variableFault? (v :: seen) vs

def fault? (root : Tag) (d : Descriptor) : Option DefinitionError :=
  if d.inputs.isEmpty then some (.noInputs d.name)
  else if d.output = root then some (.writesRoot d.name root)
  else
    match firstRepeated? [] (d.inputs.map Input.name) with
    | some tag => some (.duplicateInput d.name tag)
    | none => d.variableFault? [] (d.parameters.map Input.name)

end Descriptor

/-- The first fault among declarations in order, a repeated rule name before the rest of it. -/
def declarationFault? (root : Tag) : List String → List Descriptor → Option DefinitionError
  | _, [] => none
  | names, d :: ds =>
    if d.name ∈ names then some (.duplicateRule d.name)
    else
      match d.fault? root with
      | some e => some e
      | none => declarationFault? root (d.name :: names) ds

/-- The first required input that is neither the root nor written by a rule. -/
def producerFault? (root : Tag) (ds : List Descriptor) : Option DefinitionError :=
  ds.findSome? fun d =>
    (d.requiredInputs.find? fun tag => tag != root && !ds.any (·.output == tag)).map
      (.missingProducer d.name)

def feeds (ds : List Descriptor) (j i : Nat) : Bool :=
  match ds[j]?, ds[i]? with
  | some producer, some consumer => consumer.reads producer.output
  | _, _ => false

def producersAmong (ds : List Descriptor) (positions : List Nat) (i : Nat) : Nat :=
  positions.countP fun j => feeds ds j i

def dependents (ds : List Descriptor) (j : Nat) : List Nat :=
  (List.range ds.length).filter (feeds ds j)

structure Countdown where
  /-- For each rule, how many of its producers have not been taken yet. -/
  missing : List Nat
  /-- The rules not taken yet that miss no producer. -/
  ready : List Nat

namespace Countdown

def initial (ds : List Descriptor) : Countdown :=
  let positions := List.range ds.length
  ⟨positions.map (producersAmong ds positions),
    positions.filter fun i => producersAmong ds positions i == 0⟩

/-- The rule at position `i` misses one producer less; with the last one it gets ready. -/
def release (c : Countdown) (i : Nat) : Countdown where
  missing := c.missing.modify i (· - 1)
  ready := if c.missing[i]? = some 1 then i :: c.ready else c.ready

def take (ds : List Descriptor) (c : Countdown) (j : Nat) : Countdown :=
  (dependents ds j).foldl release { c with ready := c.ready.erase j }

def size (c : Countdown) : Nat := 2 * tally c.missing + c.ready.length

theorem size_release_le (c : Countdown) (i : Nat) : (c.release i).size ≤ c.size := by
  have h := tally_modify_pred c.missing i
  simp only [size, release]
  by_cases hone : c.missing[i]? = some 1
  · rw [if_pos hone] at h
    rw [if_pos hone, List.length_cons]
    omega
  · rw [if_neg hone] at h
    rw [if_neg hone]
    omega

theorem size_foldl_release_le (c : Countdown) (is : List Nat) :
    (is.foldl release c).size ≤ c.size := by
  induction is generalizing c with
  | nil => exact Nat.le_refl _
  | cons i is ih => exact Nat.le_trans (ih (c.release i)) (c.size_release_le i)

theorem size_take_lt (ds : List Descriptor) {c : Countdown} {j : Nat} (hj : j ∈ c.ready) :
    (c.take ds j).size < c.size := by
  have hle := size_foldl_release_le { c with ready := c.ready.erase j } (dependents ds j)
  have hlen := List.length_erase_of_mem hj
  have hpos := List.length_pos_of_mem hj
  rw [take, size]
  simp only [size] at hle ⊢
  omega

end Countdown

/-- Takes the first ready rule as long as there is one; gives the positions taken, in order, and
how many producers each rule still misses. -/
def countDown (ds : List Descriptor) (taken : List Nat) (c : Countdown) :
    List Nat × List Nat :=
  match _h : c.ready.min? with
  | none => (taken, c.missing)
  | some j => countDown ds (taken ++ [j]) (c.take ds j)
termination_by c.size
decreasing_by exact c.size_take_lt ds (List.min?_mem _h)

def topologicalOrder (ds : List Descriptor) : Except DefinitionError (List Nat) :=
  let (order, missing) := countDown ds [] (Countdown.initial ds)
  if order.length < ds.length then
    let stuck := (List.range ds.length).filter fun i => missing[i]?.any (0 < ·)
    .error (.cycle (stuck.filterMap fun i => ds[i]?.map Descriptor.name))
  else .ok order

/-- Distances of tags from the root, the latest entry first. -/
abbrev Depths := List (Tag × Nat)

/-- The deeper one of an anchor and one more tag; the anchor when both lie equally deep. -/
def deeper (depths : Depths) (anchor : Tag × Nat) (tag : Tag) : Tag × Nat :=
  match depths.lookup tag with
  | some n => if anchor.2 < n then (tag, n) else anchor
  | none => anchor

/-- Of the required inputs with a known depth, the first one of the greatest depth; the root when
none lies deeper. -/
def anchorOf (root : Tag) (depths : Depths) (d : Descriptor) : Tag × Nat :=
  d.requiredInputs.foldl (deeper depths) (root, 0)

def anchors (root : Tag) : Depths → List Descriptor → List Tag
  | _, [] => []
  | depths, d :: ds =>
    let (anchor, depth) := anchorOf root depths d
    let output := max ((depths.lookup d.output).getD 0) (depth + 1)
    anchor :: anchors root ((d.output, output) :: depths) ds

structure ScheduledRule (V E : Type) extends Rule V E where
  anchor : Tag

structure RuleGraph (V E : Type) where
  rootTag : Tag
  /-- In firing order. -/
  rules : List (ScheduledRule V E)

namespace RuleGraph

variable {V E : Type}

def order (g : RuleGraph V E) : List String := g.rules.map (·.descriptor.name)

def register (rootTag : Tag) (rules : List (Rule V E)) : Except DefinitionError (RuleGraph V E) :=
  let ds := rules.map Rule.descriptor
  match declarationFault? rootTag [] ds with
  | some e => .error e
  | none =>
    match producerFault? rootTag ds with
    | some e => .error e
    | none => do
      let order ← topologicalOrder ds
      let ordered := order.filterMap fun i => rules[i]?
      return ⟨rootTag, ordered.zipWith (fun r a => ⟨r, a⟩)
        (anchors rootTag [(rootTag, 0)] (ordered.map Rule.descriptor))⟩

end RuleGraph
end SlowRequest
