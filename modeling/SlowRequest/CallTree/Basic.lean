import SlowRequest.CallTree.Arena
/-!
# Call trees

The calls of one request, fewer than `2 ^ 32`. A tree is grown from its root by
`CallTree.Builder`; every call is younger than its parent, so walks in both directions end.
-/
namespace SlowRequest

structure CallTree where
  nodes : Arena
  consistent : nodes.Consistent
  nonempty : 0 < nodes.size

inductive TreeError where
  | unknownNode (node : NodeId)
  /-- The chain of parents above `node` ended early. -/
  | brokenParentChain (node : NodeId) (walked requested : Nat)
  | empty
  deriving DecidableEq, Repr

def TreeError.message : TreeError → String
  | unknownNode n => "Node " ++ toString n ++ " does not belong to this invocation tree"
  | brokenParentChain n walked requested =>
    "Parent chain of node " ++ toString n ++ " ends after " ++ toString walked ++ " of "
      ++ toString requested ++ " steps"
  | empty => "Invocation tree has no root node"

namespace CallTree

def root (_ : CallTree) : NodeId := ⟨0⟩

def size (t : CallTree) : Nat := t.nodes.size

def get? (t : CallTree) (id : NodeId) : Option Node := t.nodes[id.index]?

def contains (t : CallTree) (id : NodeId) : Bool := decide (id.index < t.size)

theorem contains_iff {t : CallTree} {id : NodeId} : t.contains id ↔ id.index < t.nodes.size :=
  decide_eq_true_iff

theorem get?_of_foreign {t : CallTree} {id : NodeId} (h : ¬ t.contains id) : t.get? id = none :=
  Array.getElem?_eq_none (Nat.le_of_not_lt fun hlt => h (contains_iff.mpr hlt))

def node (t : CallTree) (id : NodeId) : Except TreeError Node :=
  match t.get? id with
  | some n => .ok n
  | none => .error (.unknownNode id)

def children (t : CallTree) (id : NodeId) : List NodeId :=
  match t.get? id with
  | some n => n.children.toList
  | none => []

def entries (t : CallTree) : List (NodeId × Node) :=
  t.nodes.toList.zipIdx.map fun (n, i) => (⟨i⟩, n)

private def climb (t : CallTree) (start : NodeId) (requested : Nat) :
    Nat → NodeId → Except TreeError NodeId
  | 0, current => .ok current
  | left + 1, current => do
    let n ← t.node current
    match n.parent with
    | some p => t.climb start requested left p
    | none => .error (.brokenParentChain start (requested - (left + 1)) requested)

/-- The node `steps` parent links above `id`. No step asks nothing of `id`. -/
def ancestor (t : CallTree) (id : NodeId) (steps : Nat) : Except TreeError NodeId :=
  t.climb id steps steps id

def parent? (t : CallTree) (id : NodeId) : Option NodeId := t.nodes.parentOf id.index

private theorem climb_eq_ok_iff {t : CallTree} {start current a : NodeId}
    {requested left : Nat} :
    t.climb start requested (left + 1) current = .ok a ↔
      ∃ p, t.parent? current = some p ∧ t.climb start requested left p = .ok a := by
  simp only [climb, node, get?, parent?, Arena.parentOf]
  cases t.nodes[current.index]? with
  | none => simp [bind, Except.bind]
  | some n => cases hp : n.parent <;> simp [bind, Except.bind, hp]

private theorem climb_ok_congr {t : CallTree} (start start' : NodeId) (requested requested' : Nat)
    {left : Nat} {current a : NodeId} :
    t.climb start requested left current = .ok a ↔
      t.climb start' requested' left current = .ok a := by
  induction left generalizing current with
  | zero => simp only [climb]
  | succ left ih => simp only [climb_eq_ok_iff, ih]

@[simp] theorem ancestor_zero (t : CallTree) (id : NodeId) : t.ancestor id 0 = .ok id := rfl

theorem ancestor_succ {t : CallTree} {id a : NodeId} {steps : Nat} :
    t.ancestor id (steps + 1) = .ok a ↔
      ∃ p, t.parent? id = some p ∧ t.ancestor p steps = .ok a := by
  unfold ancestor
  rw [climb_eq_ok_iff]
  constructor
  · rintro ⟨p, hp, h⟩
    exact ⟨p, hp, (climb_ok_congr ..).mp h⟩
  · rintro ⟨p, hp, h⟩
    exact ⟨p, hp, (climb_ok_congr ..).mp h⟩

private theorem climb_broken {t : CallTree} {start r : NodeId} {requested : Nat} {n : Node}
    (hn : t.get? r = some n) (hroot : n.parent = none) {links left : Nat} {current : NodeId}
    (hclimb : t.climb start requested links current = .ok r) (hlt : links < left)
    (hle : left ≤ requested) :
    t.climb start requested left current =
      .error (.brokenParentChain start (requested - left + links) requested) := by
  obtain ⟨left, rfl⟩ : ∃ m, left = m + 1 := ⟨left - 1, by omega⟩
  induction links generalizing current left with
  | zero =>
    rw [climb] at hclimb
    cases hclimb
    simp [climb, node, hn, hroot, bind, Except.bind]
  | succ links ih =>
    obtain ⟨p, hp, hclimb⟩ := climb_eq_ok_iff.mp hclimb
    obtain ⟨m, hm, hmp⟩ := Option.bind_eq_some_iff.mp hp
    obtain ⟨left, rfl⟩ : ∃ m, left = m + 1 := ⟨left - 1, by omega⟩
    have hnext := ih hclimb left (by omega) (by omega)
    rw [show requested - (left + 1) + links = requested - (left + 1 + 1) + (links + 1) by omega]
      at hnext
    rw [climb, node, show t.get? current = some m from hm]
    simp only [bind, Except.bind, hmp]
    exact hnext

theorem ancestor_broken {t : CallTree} {id r : NodeId} {n : Node} {links steps : Nat}
    (hn : t.get? r = some n) (hroot : n.parent = none) (hlinks : t.ancestor id links = .ok r)
    (hlt : links < steps) :
    t.ancestor id steps = .error (.brokenParentChain id links steps) := by
  have h := climb_broken hn hroot ((climb_ok_congr id id links steps).mp hlinks) hlt
    (Nat.le_refl steps)
  rwa [Nat.sub_self, Nat.zero_add] at h

private theorem climb_congr {t t' : CallTree}
    (h : ∀ id, (t.get? id).map Node.parent = (t'.get? id).map Node.parent) (start : NodeId)
    (requested left : Nat) (current : NodeId) :
    t.climb start requested left current = t'.climb start requested left current := by
  induction left generalizing current with
  | zero => simp only [climb]
  | succ left ih =>
    have hparent := h current
    simp only [climb, node]
    cases hn : t.get? current with
    | none =>
      rw [hn, Option.map_none, eq_comm, Option.map_eq_none_iff] at hparent
      rw [hparent]
      rfl
    | some n =>
      rw [hn, Option.map_some, eq_comm, Option.map_eq_some_iff] at hparent
      obtain ⟨n', hn', hparent⟩ := hparent
      rw [hn']
      simp only [bind, Except.bind, hparent]
      cases n.parent with
      | none => rfl
      | some p => exact ih p

theorem ancestor_congr {t t' : CallTree}
    (h : ∀ id, (t.get? id).map Node.parent = (t'.get? id).map Node.parent) (id : NodeId)
    (steps : Nat) : t.ancestor id steps = t'.ancestor id steps :=
  climb_congr h id steps steps id

/-- A tree under construction, possibly still without a root. -/
structure Builder where
  nodes : Arena
  consistent : nodes.Consistent

namespace Builder

def empty : Builder := ⟨#[], .empty⟩

/-- A call that names no invocation is numbered by its position, counted from one. -/
def numbered (call : Call) (position : Nat) : Call :=
  if call.invocationId = 0 then { call with invocationId := UInt64.ofNat (position + 1) } else call

def ofRoot (call : Call) : Builder where
  nodes := Arena.link #[] { numbered call 0 with parent := none, children := #[] }
  consistent := Arena.Consistent.empty.link rfl (by simp) (by simp)

def addChild (b : Builder) (parent : NodeId) (call : Call) : Except TreeError (NodeId × Builder) :=
  if h : parent.index < b.nodes.size then
    .ok (⟨b.nodes.size⟩,
      { nodes := b.nodes.link
          { numbered call b.nodes.size with parent := some parent, children := #[] }
        consistent := b.consistent.link rfl (by simp) (by simp; exact h) })
  else .error (.unknownNode parent)

def grow (b : Builder) : List (Nat × Call) → Builder
  | [] => b
  | (parent, call) :: rest =>
    match b.addChild ⟨parent⟩ call with
    | .ok (_, b) => grow b rest
    | .error _ => b

def build (b : Builder) : Except TreeError CallTree :=
  if h : 0 < b.nodes.size then .ok ⟨b.nodes, b.consistent, h⟩ else .error .empty

end Builder
end CallTree
end SlowRequest
