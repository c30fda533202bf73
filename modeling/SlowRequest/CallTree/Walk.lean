import SlowRequest.CallTree.Basic
import SlowRequest.Tally
/-!
# Depth-first walks

`CallTree.depthFirst` visits a subtree in pre-order with an explicit stack, so that a deep tree
needs no deep recursion. Each call stands for fewer steps than its parent, which bounds the walk.
-/
namespace SlowRequest

/-- Weights of strictly increasing positions below `n`, all above `i`, stay under the weight
of `i`. -/
theorem sum_weights_lt (n : Nat) :
    ∀ (i : Nat) (ids : List Nat), i < n → ids.Pairwise (· < ·) → (∀ j ∈ ids, i < j ∧ j < n) →
      tally (ids.map fun j => Nat.pow 2 (n - j)) < Nat.pow 2 (n - i)
  | i, [], _, _, _ => Nat.two_pow_pos _
  | i, j :: ids, hi, hp, hb => by
    have hj := hb j (by simp)
    have hp' := List.pairwise_cons.mp hp
    have ih := sum_weights_lt n j ids hj.2 hp'.2 fun k hk => ⟨hp'.1 k hk, (hb k (by simp [hk])).2⟩
    have hle : Nat.pow 2 (n - j) * 2 ≤ Nat.pow 2 (n - i) :=
      Nat.pow_le_pow_right (by omega : 0 < 2) (by omega : n - j + 1 ≤ n - i)
    simp only [List.map_cons, tally]
    omega

namespace Arena

theorem lt_of_mem_childrenOf {nodes : Arena} (hc : nodes.Consistent) {i : Nat} {c : NodeId}
    (h : c ∈ nodes.childrenOf i) : i < c.index ∧ c.index < nodes.size := by
  simp only [childrenOf, List.mem_map, List.mem_filter, List.mem_range, decide_eq_true_eq] at h
  obtain ⟨j, ⟨hj, hp⟩, rfl⟩ := h
  exact ⟨hc.parent_lt j _ hp, hj⟩

theorem pairwise_childrenOf (nodes : Arena) (i : Nat) :
    (nodes.childrenOf i).Pairwise (·.index < ·.index) := by
  rw [childrenOf, List.pairwise_map]
  exact List.Pairwise.filter _ List.pairwise_lt_range

end Arena

namespace CallTree

theorem children_eq (t : CallTree) (id : NodeId) (h : t.contains id) :
    t.children id = t.nodes.childrenOf id.index := by
  have hlt := contains_iff.mp h
  simp [children, get?, hlt, t.consistent.children_eq id.index _ (Array.getElem?_eq_getElem hlt)]

/-- What the nodes on a stack stand for: more than all that can still be pushed for them. -/
def pending (t : CallTree) (stack : List (NodeId × Nat)) : Nat :=
  tally (stack.map fun p => Nat.pow 2 (t.size - p.1.index))

theorem pending_children_lt (t : CallTree) (id : NodeId) (depth d : Nat)
    (rest : List (NodeId × Nat)) :
    t.pending ((t.children id).map (·, d) ++ rest) < t.pending ((id, depth) :: rest) := by
  have key :
      tally ((t.children id).map fun c => Nat.pow 2 (t.size - c.index))
        < Nat.pow 2 (t.size - id.index) := by
    by_cases h : t.contains id
    · have hlt : id.index < t.size := contains_iff.mp h
      rw [t.children_eq id h]
      have := sum_weights_lt t.size id.index ((t.nodes.childrenOf id.index).map NodeId.index) hlt
        (List.pairwise_map.mpr (Arena.pairwise_childrenOf _ _))
        (by
          intro j hj
          obtain ⟨c, hc, rfl⟩ := List.mem_map.mp hj
          exact Arena.lt_of_mem_childrenOf t.consistent hc)
      simpa [Function.comp_def] using this
    · rw [children, get?_of_foreign h]
      exact Nat.two_pow_pos _
  simp only [pending, List.map_append, tally_append, List.map_cons, tally, List.map_map,
    Function.comp_def]
  omega

/-- One step of a walk: visits the node on top of the stack and puts its children, first call
first, in its place. -/
def next (t : CallTree) :
    List (NodeId × Nat) → Option ((NodeId × Nat) × List (NodeId × Nat))
  | [] => none
  | (id, depth) :: rest => some ((id, depth), (t.children id).map (·, depth + 1) ++ rest)

theorem pending_next_lt {t : CallTree} {stack rest : List (NodeId × Nat)} {entry : NodeId × Nat}
    (h : t.next stack = some (entry, rest)) : t.pending rest < t.pending stack := by
  cases stack with
  | nil => cases h
  | cons top below =>
    cases h
    exact t.pending_children_lt top.1 top.2 (top.2 + 1) below

def walk (t : CallTree) (stack : List (NodeId × Nat)) (visited : Array (NodeId × Nat)) :
    Array (NodeId × Nat) :=
  match _ : t.next stack with
  | none => visited
  | some (entry, rest) => t.walk rest (visited.push entry)
termination_by t.pending stack
decreasing_by exact pending_next_lt ‹_›

def outset (t : CallTree) (start : NodeId) : List (NodeId × Nat) :=
  if t.contains start then [(start, 0)] else []

/-- The subtree of `start` in pre-order, with depths below `start`. -/
def depthFirst (t : CallTree) (start : NodeId) : List (NodeId × Nat) :=
  (t.walk (t.outset start) #[]).toList

end CallTree
end SlowRequest
