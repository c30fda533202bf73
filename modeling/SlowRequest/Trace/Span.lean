import SlowRequest.CallTree.Basic
namespace SlowRequest

structure SpanRecord where
  method : UInt64
  duration : Float
  exclusive : Option Float
  statement : Option String
  uri : Option String
  invocationId : Option UInt64
  timestamp : Option Instant
  application : UInt32
  businessTransaction : UInt32
  deriving Repr, Inhabited

inductive Span where
  | mk (call : SpanRecord) (children : List Span)
  deriving Repr, Inhabited

namespace SpanRecord

def timer (r : SpanRecord) (exclusive : Float) : Timer := ⟨r.duration, some exclusive, 0.0, 1⟩

/-- A statement runs for all of its duration and a route for none of it, when nothing else is
reported; any other call carries a timer only when it was measured. -/
def measurement (r : SpanRecord) : Measurement :=
  match r.statement, r.uri, r.exclusive with
  | some s, _, x => .sql (r.timer (x.getD r.duration)) s
  | none, some u, x => .http (r.timer (x.getD 0.0)) u "GET"
  | none, none, some x => .timer (r.timer x)
  | none, none, none => .none

/-- A call that tells no time is given the time `now`. -/
def toCall (now : Instant) (r : SpanRecord) : Call where
  method := r.method
  duration := r.duration
  measurement := r.measurement
  invocationId := r.invocationId.getD 0
  timestamp := r.timestamp.getD now
  application := r.application
  businessTransaction := r.businessTransaction

end SpanRecord

namespace Span

def call : Span → SpanRecord
  | mk r _ => r

def children : Span → List Span
  | mk _ cs => cs

mutual

def size : Span → Nat
  | mk _ cs => sizeAll cs + 1

def sizeAll : List Span → Nat
  | [] => 0
  | s :: ss => s.size + sizeAll ss

end

theorem sizeAll_append (ss ss' : List Span) : sizeAll (ss ++ ss') = sizeAll ss + sizeAll ss' := by
  induction ss with
  | nil => rw [List.nil_append, sizeAll, Nat.zero_add]
  | cons s ss ih => rw [List.cons_append, sizeAll, sizeAll, ih, Nat.add_assoc]

def madeFrom (parent : NodeId) (ss : List Span) : List (NodeId × Span) := ss.map (parent, ·)

theorem map_snd_madeFrom (parent : NodeId) (ss : List Span) :
    (madeFrom parent ss).map Prod.snd = ss := by
  rw [madeFrom, List.map_map]
  exact List.map_id ss

/-- Adds the spans of a stack, each under the call it was made from. The spans below the one that
was added, first call first, take its place. -/
def growFrom (now : Instant) (b : CallTree.Builder) (stack : List (NodeId × Span)) :
    Except TreeError CallTree.Builder :=
  match stack with
  | [] => .ok b
  | (parent, mk r cs) :: rest => do
    let (id, b) ← b.addChild parent (r.toCall now)
    growFrom now b (madeFrom id cs ++ rest)
termination_by sizeAll (stack.map Prod.snd)
decreasing_by
  rw [List.map_append, map_snd_madeFrom, sizeAll_append, List.map_cons, sizeAll, size]
  omega

def toTree (now : Instant) (s : Span) : Except TreeError CallTree := do
  let b ← growFrom now (.ofRoot (s.call.toCall now)) (madeFrom ⟨0⟩ s.children)
  b.build

end Span
end SlowRequest
