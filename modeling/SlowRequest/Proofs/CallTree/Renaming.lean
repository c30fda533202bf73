import SlowRequest.Aggregate
import SlowRequest.Proofs.CallTree.PreOrder
import SlowRequest.Proofs.CallTree.Timing
import Mathlib.Logic.Function.Basic
namespace SlowRequest

/-- New names for methods, statements and routes, different ones for different ones. -/
structure Renaming where
  method : UInt64 → UInt64
  statement : String → String
  uri : String → String
  method_injective : Function.Injective method
  statement_injective : Function.Injective statement
  uri_injective : Function.Injective uri

variable {m : Renaming}

namespace Renaming

def key (m : Renaming) (k : OperationKey) : OperationKey :=
  ⟨m.method k.method, k.statement.map m.statement, k.uri.map m.uri⟩

theorem key_injective (m : Renaming) : Function.Injective m.key := by
  rintro ⟨method, statement, uri⟩ ⟨method', statement', uri'⟩ h
  obtain ⟨hmethod, hstatement, huri⟩ := by simpa only [key, OperationKey.mk.injEq] using h
  rw [m.method_injective hmethod, Option.map_injective m.statement_injective hstatement,
    Option.map_injective m.uri_injective huri]

end Renaming

/-- The same kind of measurement with the same exclusive time, of a renamed statement or route. -/
inductive Measurement.Renamed (m : Renaming) : Measurement → Measurement → Prop where
  | none : Renamed m .none .none
  | timer {a b : Timer} (exclusive : b.exclusive = a.exclusive) : Renamed m (.timer a) (.timer b)
  | sql {a b : Timer} (exclusive : b.exclusive = a.exclusive) (statement : String) :
    Renamed m (.sql a statement) (.sql b (m.statement statement))
  | http {a b : Timer} (exclusive : b.exclusive = a.exclusive)
    (uri requestMethod requestMethod' : String) :
    Renamed m (.http a uri requestMethod) (.http b (m.uri uri) requestMethod')

/-- A call at the same place with the same times, of a renamed operation. -/
structure Node.Renamed (m : Renaming) (n n' : Node) : Prop where
  parent : n'.parent = n.parent
  duration : n'.duration = n.duration
  method : n'.method = m.method n.method
  measurement : n.measurement.Renamed m n'.measurement

/-- The second tree has the calls of the first one, renamed. -/
def CallTree.Renamed (m : Renaming) (t t' : CallTree) : Prop :=
  List.Forall₂ (Node.Renamed m) t.nodes.toList t'.nodes.toList

namespace Measurement.Renamed

variable {x y : Measurement}

theorem statement? (h : x.Renamed m y) : y.statement? = x.statement?.map m.statement := by
  cases h <;> rfl

theorem uri? (h : x.Renamed m y) : y.uri? = x.uri?.map m.uri := by
  cases h <;> rfl

theorem isNone_timer? (h : x.Renamed m y) : y.timer?.isNone = x.timer?.isNone := by
  cases h <;> rfl

theorem exclusive (h : x.Renamed m y) :
    y.timer?.bind Timer.exclusive = x.timer?.bind Timer.exclusive := by
  cases h with
  | none => rfl
  | timer exclusive => exact exclusive
  | sql exclusive => exact exclusive
  | http exclusive => exact exclusive

end Measurement.Renamed

namespace Node.Renamed

variable {n n' : Node}

theorem key (h : n.Renamed m n') : OperationKey.of n' = m.key (.of n) := by
  rw [OperationKey.of, h.method, h.measurement.statement?, h.measurement.uri?]
  rfl

theorem exclusive? (h : n.Renamed m n') : n'.exclusive? = n.exclusive? := h.measurement.exclusive

theorem exclusiveTime (h : n.Renamed m n') : n'.exclusiveTime = n.exclusiveTime := by
  rw [Node.exclusiveTime, Node.exclusiveTime, h.exclusive?]

theorem hasExclusive (h : n.Renamed m n') : n'.hasExclusive = n.hasExclusive := by
  rw [Node.hasExclusive, Node.hasExclusive, h.exclusive?]

theorem hasTimer (h : n.Renamed m n') : n'.hasTimer = n.hasTimer := by
  have hm := h.measurement
  rw [Node.hasTimer, Node.hasTimer]
  generalize n.measurement = x at hm ⊢
  generalize n'.measurement = y at hm ⊢
  cases hm <;> rfl

theorem hasSql (h : n.Renamed m n') : n'.hasSql = n.hasSql := by
  rw [Node.hasSql, Node.hasSql, h.measurement.statement?, Option.isSome_map]

end Node.Renamed

private theorem map_beq_some_of_injective {f : String → String} (hf : Function.Injective f)
    (x : Option String) (s : String) : (x.map f == some (f s)) = (x == some s) := by
  rw [Bool.eq_iff_iff, beq_iff_eq, beq_iff_eq]
  exact (Option.map_injective hf).eq_iff (b := some s)

theorem Renaming.covers_key {n n' : Node} (h : n.Renamed m n') (k : OperationKey) :
    (m.key k).covers n' = k.covers n := by
  obtain ⟨method, statement, uri⟩ := k
  have hmethod : (m.method n.method == m.method method) = (n.method == method) := by
    rw [Bool.eq_iff_iff, beq_iff_eq, beq_iff_eq]
    exact m.method_injective.eq_iff
  rw [OperationKey.covers, OperationKey.covers, key, h.method, hmethod]
  congr 1
  cases statement with
  | some s =>
    change (n'.measurement.statement? == some (m.statement s)) = _
    rw [h.measurement.statement?]
    exact map_beq_some_of_injective m.statement_injective _ s
  | none =>
    cases uri with
    | some u =>
      change (n'.measurement.uri? == some (m.uri u)) = _
      rw [h.measurement.uri?]
      exact map_beq_some_of_injective m.uri_injective _ u
    | none => exact h.hasTimer

namespace CallTree.Renamed

variable {t t' : CallTree}

theorem size (h : t.Renamed m t') : t'.nodes.size = t.nodes.size := by
  rw [← Array.length_toList, ← Array.length_toList, h.length_eq]

theorem get?_cases (h : t.Renamed m t') (id : NodeId) :
    (t.get? id = none ∧ t'.get? id = none) ∨
      ∃ n n', t.get? id = some n ∧ t'.get? id = some n' ∧ n.Renamed m n' := by
  have hpairs := h.get
  rw [get?, get?]
  by_cases hlt : id.index < t.nodes.size
  · have hlt' : id.index < t'.nodes.size := h.size ▸ hlt
    right
    refine ⟨t.nodes[id.index], t'.nodes[id.index], Array.getElem?_eq_getElem hlt,
      Array.getElem?_eq_getElem hlt', ?_⟩
    exact hpairs (by simpa using hlt) (by simpa using hlt')
  · left
    have hle := Nat.not_lt.mp hlt
    exact ⟨Array.getElem?_eq_none hle, Array.getElem?_eq_none (h.size ▸ hle)⟩

theorem any_get? (h : t.Renamed m t') {p q : Node → Bool}
    (hpq : ∀ n n', n.Renamed m n' → q n' = p n) (id : NodeId) :
    (t'.get? id).any q = (t.get? id).any p := by
  rcases h.get?_cases id with ⟨hn, hn'⟩ | ⟨n, n', hn, hn', hnode⟩
  · rw [hn, hn']
    rfl
  · rw [hn, hn']
    exact hpq n n' hnode

theorem node_cases (h : t.Renamed m t') (id : NodeId) :
    (∃ e, t.node id = .error e ∧ t'.node id = .error e) ∨
      ∃ n n', t.node id = .ok n ∧ t'.node id = .ok n' ∧ n.Renamed m n' := by
  rcases h.get?_cases id with ⟨hn, hn'⟩ | ⟨n, n', hn, hn', hnode⟩
  · left
    rw [node, node, hn, hn']
    exact ⟨.unknownNode id, rfl, rfl⟩
  · exact .inr ⟨n, n', node_of_get? hn, node_of_get? hn', hnode⟩

private theorem map_parent (h : t.Renamed m t') (id : NodeId) :
    (t'.get? id).map Node.parent = (t.get? id).map Node.parent := by
  rcases h.get?_cases id with ⟨hn, hn'⟩ | ⟨n, n', hn, hn', hnode⟩
  · rw [hn, hn', Option.map_none]
  · rw [hn, hn', Option.map_some, Option.map_some, hnode.parent]

theorem ancestor (h : t.Renamed m t') (id : NodeId) (steps : Nat) :
    t'.ancestor id steps = t.ancestor id steps :=
  ancestor_congr h.map_parent id steps

theorem contains (h : t.Renamed m t') (id : NodeId) : t'.contains id = t.contains id := by
  rw [CallTree.contains, CallTree.contains, CallTree.size, CallTree.size, h.size]

theorem parentOf (h : t.Renamed m t') (j : Nat) : t'.nodes.parentOf j = t.nodes.parentOf j := by
  change (t'.get? ⟨j⟩).bind Node.parent = (t.get? ⟨j⟩).bind Node.parent
  rcases h.get?_cases ⟨j⟩ with ⟨hn, hn'⟩ | ⟨n, n', hn, hn', hnode⟩
  · rw [hn, hn']
  · rw [hn, hn', Option.bind_some, Option.bind_some, hnode.parent]

theorem children (h : t.Renamed m t') (id : NodeId) : t'.children id = t.children id := by
  by_cases hid : t.contains id
  · rw [t.children_eq id hid, t'.children_eq id (h.contains id ▸ hid), Arena.childrenOf,
      Arena.childrenOf, h.size]
    simp only [h.parentOf]
  · rw [children_of_foreign hid, children_of_foreign fun hid' => hid (h.contains id ▸ hid')]

theorem visit (h : t.Renamed m t') (stack : List (NodeId × Nat)) :
    t'.visit stack = t.visit stack := by
  match stack with
  | [] => rw [visit_nil, visit_nil]
  | (id, d) :: rest =>
    have ih := h.visit ((t.children id).map (·, d + 1) ++ rest)
    rw [visit_cons, visit_cons, h.children, ih]
termination_by t.pending stack
decreasing_by exact t.pending_children_lt id d (d + 1) rest

theorem depthFirst (h : t.Renamed m t') (start : NodeId) :
    t'.depthFirst start = t.depthFirst start := by
  rw [CallTree.depthFirst, CallTree.depthFirst, CallTree.outset, CallTree.outset, h.contains]
  exact h.visit _

end CallTree.Renamed

end SlowRequest
