import SlowRequest.Proofs.CallTree.PreOrder
/-! # Walks and climbs as recursions -/
namespace SlowRequest

namespace CallTree

variable {t : CallTree}

/-- A walk from `stack` visits the entries one after the other and then has nothing left. -/
inductive Exhausts (t : CallTree) : List (NodeId × Nat) → List (NodeId × Nat) → Prop where
  | done {stack : List (NodeId × Nat)} (last : t.next stack = none) : Exhausts t stack []
  | step {stack rest visited : List (NodeId × Nat)} {entry : NodeId × Nat}
    (next : t.next stack = some (entry, rest)) (later : Exhausts t rest visited) :
    Exhausts t stack (entry :: visited)

/-- The pre-order of the subtree of `id`, with depths counted on from `depth`. -/
def preOrder (t : CallTree) (id : NodeId) (depth : Nat) : List (NodeId × Nat) :=
  (id, depth) ::
    (t.nodes.childrenOf id.index).attach.flatMap fun c => t.preOrder c.1 (depth + 1)
termination_by t.size - id.index
decreasing_by
  obtain ⟨hlt, hsize⟩ := Arena.lt_of_mem_childrenOf t.consistent c.2
  exact Nat.sub_lt_sub_left (Nat.lt_trans hlt hsize) hlt

def depth (t : CallTree) (id : NodeId) : Nat :=
  match _ : t.parent? id with
  | none => 0
  | some p => t.depth p + 1
termination_by id.index
decreasing_by exact parent?_index_lt ‹_›

private theorem exhausts_visit (t : CallTree) (stack : List (NodeId × Nat)) :
    t.Exhausts stack (t.visit stack) := by
  match stack with
  | [] =>
    rw [visit_nil]
    exact .done rfl
  | (id, d) :: rest =>
    have ih := exhausts_visit t ((t.children id).map (·, d + 1) ++ rest)
    rw [visit_cons]
    exact .step rfl ih
termination_by t.pending stack
decreasing_by exact t.pending_children_lt id d (d + 1) rest

theorem preOrder_eq (t : CallTree) (id : NodeId) (d : Nat) :
    t.preOrder id d =
      (id, d) :: (t.children id).flatMap fun c => t.preOrder c (d + 1) := by
  have hmade := List.flatMap_subtype (l := (t.nodes.childrenOf id.index).attach)
    (f := fun c => t.preOrder c.1 (d + 1)) (g := fun c => t.preOrder c (d + 1)) fun _ _ => rfl
  rw [preOrder, children_eq_childrenOf, hmade, List.unattach_attach]

private theorem visit_eq_preOrder (t : CallTree) (stack : List (NodeId × Nat)) :
    t.visit stack = stack.flatMap fun p => t.preOrder p.1 p.2 := by
  match stack with
  | [] => exact visit_nil t
  | (id, d) :: rest =>
    have ih := visit_eq_preOrder t ((t.children id).map (·, d + 1) ++ rest)
    rw [visit_cons, ih, List.flatMap_append, List.flatMap_map, List.flatMap_cons, preOrder_eq,
      List.cons_append]
termination_by t.pending stack
decreasing_by exact t.pending_children_lt id d (d + 1) rest

theorem depthFirst_eq_preOrder {start : NodeId} (h : t.contains start) :
    t.depthFirst start = t.preOrder start 0 := by
  rw [depthFirst_of_contains h, visit_eq_preOrder, List.flatMap_cons, List.flatMap_nil,
    List.append_nil]

private theorem depth_of_parent? {id p : NodeId} (h : t.parent? id = some p) :
    t.depth id = t.depth p + 1 := by
  rw [depth]
  split
  · rename_i hnone
    rw [h] at hnone
    cases hnone
  · rename_i q hq
    rw [h] at hq
    cases hq
    rfl

theorem depth_root (t : CallTree) (h : t.contains t.root) : t.depth t.root = 0 := by
  rw [depth]
  split
  · rfl
  · rename_i p hp
    rw [(parent?_eq_none h).mpr rfl] at hp
    cases hp

theorem ancestor_depth (id : NodeId) (h : t.contains id) :
    t.ancestor id (t.depth id) = .ok t.root := by
  cases hp : t.parent? id with
  | none =>
    obtain rfl := (parent?_eq_none h).mp hp
    rw [depth_root t h]
    rfl
  | some p =>
    have hcontains := (encloses_of_parent? hp).contains h
    rw [depth_of_parent? hp]
    exact ancestor_succ.mpr ⟨p, hp, ancestor_depth p hcontains⟩
termination_by id.index
decreasing_by exact parent?_index_lt hp

theorem ancestor_of_le_depth {id : NodeId} {steps : Nat} (h : t.contains id)
    (hle : steps ≤ t.depth id) : ∃ a, t.ancestor id steps = .ok a := by
  have hroot := ancestor_depth id h
  rw [← Nat.add_sub_cancel' hle] at hroot
  obtain ⟨a, ha, -⟩ := ancestor_add.mp hroot
  exact ⟨a, ha⟩

theorem ancestor_of_depth_lt {id : NodeId} {steps : Nat} (h : t.contains id)
    (hlt : t.depth id < steps) :
    t.ancestor id steps = .error (.brokenParentChain id (t.depth id) steps) := by
  have hroot : t.contains t.root := contains_iff.mpr t.nonempty
  obtain ⟨n, hn⟩ : ∃ n, t.get? t.root = some n :=
    ⟨_, Array.getElem?_eq_getElem (contains_iff.mp hroot)⟩
  have hparent : n.parent = none := by
    have hnone := (parent?_eq_none hroot).mpr rfl
    rwa [parent?, Arena.parentOf, show t.nodes[t.root.index]? = some n from hn] at hnone
  exact ancestor_broken hn hparent (ancestor_depth id h) hlt

/-- A walk of the subtree of `start` comes to an end and yields the pre-order of that subtree, or
nothing for a foreign handle: each call once, and exactly those from which a climb of their depth
ends at `start`. A climb from a call of the tree succeeds exactly up to its depth below the root,
and otherwise tells that depth; one that succeeds can be made in two parts. -/
theorem depthFirst_traverses (t : CallTree) (start : NodeId) :
    t.Exhausts (t.outset start) (t.depthFirst start) ∧
    t.depthFirst start = (if t.contains start then t.preOrder start 0 else []) ∧
    ((t.depthFirst start).map Prod.fst).Nodup ∧
    (∀ v d, (v, d) ∈ t.depthFirst start ↔ t.contains start ∧ t.ancestor v d = .ok start) ∧
    (∀ i : Fin t.size, t.ancestor ⟨i⟩ (t.depth ⟨i⟩) = .ok t.root ∧ ∀ steps,
      ((∃ a, t.ancestor ⟨i⟩ steps = .ok a) ↔ steps ≤ t.depth ⟨i⟩) ∧
      (t.ancestor ⟨i⟩ steps = .error (.brokenParentChain ⟨i⟩ (t.depth ⟨i⟩) steps) ↔
        t.depth ⟨i⟩ < steps)) ∧
    ∀ v a b w, t.ancestor v (a + b) = .ok w ↔
      (t.ancestor v a >>= fun u => t.ancestor u b) = .ok w := by
  refine ⟨t.exhausts_visit _, ?_, t.nodup_depthFirst start, fun v d => mem_depthFirst, ?_, ?_⟩
  · split
    · rename_i h
      exact depthFirst_eq_preOrder h
    · rename_i h
      exact depthFirst_of_foreign h
  · intro i
    have hi : t.contains ⟨i⟩ := contains_iff.mpr i.isLt
    refine ⟨ancestor_depth _ hi, fun steps => ?_⟩
    rcases Nat.lt_or_ge (t.depth ⟨i⟩) steps with hlt | hle
    · have hbroken := ancestor_of_depth_lt hi hlt
      exact ⟨by simp [hbroken, Nat.not_le.mpr hlt], by simp [hbroken, hlt]⟩
    · obtain ⟨a, ha⟩ := ancestor_of_le_depth hi hle
      exact ⟨by simp [ha, hle], by simp [ha, Nat.not_lt.mpr hle]⟩
  · intro v a b w
    rw [ancestor_add]
    cases t.ancestor v a <;> simp [bind, Except.bind]

end CallTree
end SlowRequest
