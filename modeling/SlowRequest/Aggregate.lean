import SlowRequest.CallTree.Walk
import SlowRequest.TotalOrder
/-!
# Aggregates of equivalent calls

Calls are the same operation when they call the same method and, where present, run the same SQL
statement or serve the same HTTP route. Calls are grouped with an index of the slots at which the
aggregates of their keys stand.
-/
namespace SlowRequest

/-- What makes two calls the same operation. -/
structure OperationKey where
  method : UInt64
  statement : Option String
  uri : Option String
  deriving DecidableEq, Repr, Inhabited

namespace OperationKey

def of (n : Node) : OperationKey := ⟨n.method, n.measurement.statement?, n.measurement.uri?⟩

def isSql (k : OperationKey) : Bool := k.statement.isSome

def isHttp (k : OperationKey) : Bool := k.uri.isSome

/-- The statement decides before the route; a key with neither asks for a timer. -/
def covers (k : OperationKey) (n : Node) : Bool :=
  n.method == k.method &&
    match k.statement, k.uri with
    | some s, _ => n.measurement.statement? == some s
    | none, some u => n.measurement.uri? == some u
    | none, none => n.hasTimer

end OperationKey

structure Aggregate where
  key : OperationKey
  members : Array NodeId
  /-- Exclusive time of each member, in step with `members`. -/
  exclusiveTimes : Array Float
  exclusiveTime : Float
  duration : Float
  deriving Repr, Inhabited

/-- Which NaN the times of these calls add up to when they add up to one. The sign and the payload
of a computed NaN are left open, so any choice of them is allowed. -/
class NaNSums where
  sum : Array NodeId → Array Float → NaNBits

namespace Aggregate

def empty (key : OperationKey) : Aggregate := ⟨key, #[], #[], 0.0, 0.0⟩

def push (a : Aggregate) (id : NodeId) (n : Node) : Aggregate :=
  { a with
    members := a.members.push id
    exclusiveTimes := a.exclusiveTimes.push n.exclusiveTime
    exclusiveTime := a.exclusiveTime + n.exclusiveTime
    duration := a.duration + n.duration }

def size (a : Aggregate) : Nat := a.members.size

def isEmpty (a : Aggregate) : Bool := a.members.isEmpty

def ofNode (id : NodeId) (n : Node) : Aggregate := (empty (.of n)).push id n

/-- Place of the summed exclusive time in the total order of doubles. -/
def rank [NaNSums] (a : Aggregate) : Int :=
  if a.exclusiveTime.isNaN then (NaNSums.sum a.members a.exclusiveTimes).key
  else totalOrderKey a.exclusiveTime

end Aggregate

theorem idxOf?_concat {α : Type} [DecidableEq α] (l : List α) (a b : α) :
    (l ++ [a]).idxOf? b = (l.idxOf? b).or (if a = b then some l.length else none) := by
  rw [List.idxOf?, List.findIdx?_append]
  by_cases h : a = b <;> simp [h]

structure Aggregator where
  aggregates : List Aggregate
  /-- The slot of each key met so far, latest first. -/
  slots : List (OperationKey × Nat)
  /-- Each key has the slot at which its aggregate stands. -/
  indexed : ∀ key, slots.lookup key = (aggregates.map Aggregate.key).idxOf? key

namespace Aggregator

def empty : Aggregator := ⟨[], [], fun _ => rfl⟩

def openSlot (g : Aggregator) (key : OperationKey) (hnew : g.slots.lookup key = none) :
    Aggregator where
  aggregates := g.aggregates ++ [.empty key]
  slots := (key, g.aggregates.length) :: g.slots
  indexed other := by
    rw [List.map_append, List.map_singleton, idxOf?_concat, ← g.indexed, List.length_map,
      List.lookup_cons]
    by_cases hkey : other = key
    · subst hkey
      simp [hnew, Aggregate.empty]
    · have hne : (other == key) = false := beq_eq_false_iff_ne.mpr hkey
      simp [hne, Aggregate.empty, Ne.symm hkey]

theorem map_key_modify (groups : List Aggregate) (slot : Nat) (id : NodeId) (n : Node) :
    (groups.modify slot (·.push id n)).map Aggregate.key = groups.map Aggregate.key := by
  apply List.ext_getElem?
  intro i
  rw [List.getElem?_map, List.getElem?_modify, List.getElem?_map]
  cases groups[i]? with
  | none => rfl
  | some a => by_cases hslot : slot = i <;> simp [hslot, Aggregate.push]

def pushAt (g : Aggregator) (slot : Nat) (id : NodeId) (n : Node) : Aggregator where
  aggregates := g.aggregates.modify slot (·.push id n)
  slots := g.slots
  indexed key := by rw [map_key_modify, g.indexed]

def put (g : Aggregator) (id : NodeId) (n : Node) : Aggregator :=
  match h : g.slots.lookup (.of n) with
  | some slot => g.pushAt slot id n
  | none => (g.openSlot (.of n) h).pushAt g.aggregates.length id n

def add (t : CallTree) (g : Aggregator) (id : NodeId) : Except TreeError Aggregator := do
  let n ← t.node id
  return g.put id n

end Aggregator

/-- Groups calls by key; the first call of a key decides the place of its aggregate. -/
def Aggregate.group (t : CallTree) (ids : List NodeId) : Except TreeError (List Aggregate) := do
  let g ← ids.foldlM (Aggregator.add t) .empty
  return g.aggregates

end SlowRequest
