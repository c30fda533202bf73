import Mathlib.Data.List.Nodup
import SlowRequest.Proofs.CallTree.Ancestry
/-!
# Pre-order walks

What the explicit stack of a depth-first walk yields: every call below the start once, with its
depth, and each next call hanging from the chain above the one before. The last fact is all that
later proofs need of the order.
-/
namespace SlowRequest

namespace CallTree

variable {t : CallTree}

def visit (t : CallTree) (stack : List (NodeId × Nat)) : List (NodeId × Nat) :=
  (t.walk stack #[]).toList

/-- The walk goes on from `p` to `q`, a child of `p` or of a call above it. -/
def WalkStep (t : CallTree) (p q : NodeId × Nat) : Prop :=
  1 ≤ q.2 ∧ q.2 ≤ p.2 + 1 ∧
    ∃ c, t.parent? q.1 = some c ∧ t.ancestor p.1 (p.2 + 1 - q.2) = .ok c

private theorem walk_nil (t : CallTree) (seen : Array (NodeId × Nat)) : t.walk [] seen = seen := by
  rw [walk]
  rfl

private theorem walk_cons (t : CallTree) (id : NodeId) (d : Nat) (rest : List (NodeId × Nat))
    (seen : Array (NodeId × Nat)) :
    t.walk ((id, d) :: rest) seen =
      t.walk ((t.children id).map (·, d + 1) ++ rest) (seen.push (id, d)) := by
  rw [walk]
  rfl

private theorem toList_walk (t : CallTree) (stack : List (NodeId × Nat))
    (seen : Array (NodeId × Nat)) :
    (t.walk stack seen).toList = seen.toList ++ t.visit stack := by
  match stack with
  | [] => simp [visit, walk_nil]
  | (id, d) :: rest =>
    have ih := toList_walk t ((t.children id).map (·, d + 1) ++ rest)
    rw [visit, walk_cons, walk_cons, ih, ih]
    simp
termination_by t.pending stack
decreasing_by exact t.pending_children_lt id d (d + 1) rest

@[simp] theorem visit_nil (t : CallTree) : t.visit [] = [] := by simp [visit, walk_nil]

theorem visit_cons (t : CallTree) (id : NodeId) (d : Nat) (rest : List (NodeId × Nat)) :
    t.visit ((id, d) :: rest) =
      (id, d) :: t.visit ((t.children id).map (·, d + 1) ++ rest) := by
  rw [visit, walk_cons, toList_walk]
  rfl

theorem children_of_foreign {id : NodeId} (h : ¬ t.contains id) : t.children id = [] := by
  rw [children, get?_of_foreign h]

theorem mem_children {id c : NodeId} : c ∈ t.children id ↔ t.parent? c = some id := by
  constructor
  · intro hc
    have hid : t.contains id := by
      by_contra h
      rw [children_of_foreign h] at hc
      cases hc
    rw [t.children_eq id hid] at hc
    simp only [Arena.childrenOf, List.mem_map, List.mem_filter, decide_eq_true_eq] at hc
    obtain ⟨j, ⟨-, hp⟩, rfl⟩ := hc
    exact hp
  · intro hp
    have hlt := contains_iff.mp (contains_of_parent? hp)
    have hid : t.contains id := (encloses_of_parent? hp).contains (contains_of_parent? hp)
    rw [t.children_eq id hid]
    simp only [Arena.childrenOf, List.mem_map, List.mem_filter, List.mem_range,
      decide_eq_true_eq]
    exact ⟨c.index, ⟨hlt, hp⟩, rfl⟩

theorem children_eq_childrenOf (t : CallTree) (id : NodeId) :
    t.children id = t.nodes.childrenOf id.index := by
  by_cases hid : t.contains id
  · exact t.children_eq id hid
  · rw [children_of_foreign hid, eq_comm, List.eq_nil_iff_forall_not_mem]
    intro c hc
    obtain ⟨hlt, hsize⟩ := Arena.lt_of_mem_childrenOf t.consistent hc
    exact hid (contains_iff.mpr (Nat.lt_trans hlt hsize))

theorem pairwise_children (t : CallTree) (id : NodeId) :
    (t.children id).Pairwise (·.index < ·.index) := by
  rw [children_eq_childrenOf]
  exact Arena.pairwise_childrenOf t.nodes id.index

theorem nodup_children (t : CallTree) (id : NodeId) : (t.children id).Nodup := by
  apply (t.pairwise_children id).imp
  rintro a b hab rfl
  exact Nat.lt_irrefl _ hab

/-- A walk yields what lies at or below an entry of its stack, with depths counted on from it. -/
theorem mem_visit (t : CallTree) (stack : List (NodeId × Nat)) (p : NodeId × Nat) :
    p ∈ t.visit stack ↔
      ∃ q ∈ stack, ∃ k, t.ancestor p.1 k = .ok q.1 ∧ p.2 = q.2 + k := by
  match stack with
  | [] => simp
  | (id, d) :: rest =>
    have ih := mem_visit t ((t.children id).map (·, d + 1) ++ rest) p
    rw [visit_cons, List.mem_cons, ih]
    constructor
    · rintro (rfl | ⟨q, hq, k, hk, hd⟩)
      · exact ⟨(id, d), by simp, 0, rfl, rfl⟩
      · rcases List.mem_append.mp hq with hq | hq
        · obtain ⟨c, hc, rfl⟩ := List.mem_map.mp hq
          refine ⟨(id, d), by simp, k + 1, ?_, by simp only at hd ⊢; omega⟩
          exact ancestor_trans hk (ancestor_one.mpr (mem_children.mp hc))
        · exact ⟨q, List.mem_cons_of_mem _ hq, k, hk, hd⟩
    · rintro ⟨q, hq, k, hk, hd⟩
      rcases List.mem_cons.mp hq with rfl | hq
      · cases k with
        | zero =>
          left
          rw [ancestor_zero] at hk
          cases hk
          exact Prod.ext rfl hd
        | succ k =>
          right
          obtain ⟨c, hc, hid⟩ := ancestor_add.mp hk
          have hmem := mem_children.mpr (ancestor_one.mp hid)
          refine ⟨(c, d + 1), ?_, k, hc, by simp only at hd ⊢; omega⟩
          exact List.mem_append_left _ (List.mem_map_of_mem hmem)
      · exact .inr ⟨q, List.mem_append_right _ hq, k, hk, hd⟩
termination_by t.pending stack
decreasing_by exact t.pending_children_lt id d (d + 1) rest

theorem depthFirst_of_contains {start : NodeId} (h : t.contains start) :
    t.depthFirst start = t.visit [(start, 0)] := by
  rw [depthFirst, outset, if_pos h]
  rfl

theorem depthFirst_of_foreign {start : NodeId} (h : ¬ t.contains start) :
    t.depthFirst start = [] := by
  rw [depthFirst, outset, if_neg h]
  exact t.visit_nil

theorem mem_depthFirst {start : NodeId} {p : NodeId × Nat} :
    p ∈ t.depthFirst start ↔ t.contains start ∧ t.ancestor p.1 p.2 = .ok start := by
  by_cases h : t.contains start
  · rw [depthFirst_of_contains h, mem_visit]
    simp [h]
  · simp [depthFirst_of_foreign h, h]

theorem mem_map_depthFirst {start v : NodeId} :
    v ∈ (t.depthFirst start).map Prod.fst ↔ t.contains start ∧ t.Encloses start v := by
  rw [List.mem_map]
  constructor
  · rintro ⟨p, hp, rfl⟩
    exact ⟨(mem_depthFirst.mp hp).1, p.2, (mem_depthFirst.mp hp).2⟩
  · rintro ⟨hs, d, hd⟩
    exact ⟨(v, d), mem_depthFirst.mpr ⟨hs, hd⟩, rfl⟩

def Apart (t : CallTree) (p q : NodeId × Nat) : Prop :=
  ¬ t.Encloses p.1 q.1 ∧ ¬ t.Encloses q.1 p.1

private theorem not_encloses_of_parent? {id c : NodeId} (h : t.parent? c = some id) :
    ¬ t.Encloses c id := by
  intro hc
  have := hc.index_le
  have := parent?_index_lt h
  omega

theorem Encloses.eq_or_parent {a c id : NodeId} (h : t.Encloses a c)
    (hp : t.parent? c = some id) : a = c ∨ t.Encloses a id := by
  obtain ⟨n, hn⟩ := h
  cases n with
  | zero =>
    cases hn
    exact .inl rfl
  | succ n =>
    obtain ⟨q, hq, hn⟩ := ancestor_succ.mp hn
    rw [hp] at hq
    cases hq
    exact .inr ⟨n, hn⟩

private theorem pairwise_apart_children (t : CallTree) (id : NodeId) (d : Nat) :
    ((t.children id).map (·, d)).Pairwise t.Apart := by
  have key : ∀ a b, a ∈ t.children id → b ∈ t.children id → a ≠ b → ¬ t.Encloses a b := by
    intro a b ha hb hne h
    rcases h.eq_or_parent (mem_children.mp hb) with rfl | h
    · exact hne rfl
    · exact not_encloses_of_parent? (mem_children.mp ha) h
  rw [List.pairwise_map]
  apply (nodup_children t id).imp_of_mem
  intro a b ha hb hne
  exact ⟨key a b ha hb hne, key b a hb ha (Ne.symm hne)⟩

/-- From calls apart from each other a walk never yields a call after one that it encloses. -/
theorem pairwise_visit (t : CallTree) (stack : List (NodeId × Nat)) (h : stack.Pairwise t.Apart) :
    (t.visit stack).Pairwise fun p q => ¬ t.Encloses q.1 p.1 := by
  match stack with
  | [] => simp
  | (id, d) :: rest =>
    obtain ⟨hid, hrest⟩ := List.pairwise_cons.mp h
    have hnext : ((t.children id).map (·, d + 1) ++ rest).Pairwise t.Apart := by
      refine List.pairwise_append.mpr ⟨pairwise_apart_children t id (d + 1), hrest, ?_⟩
      intro p hp q hq
      obtain ⟨c, hc, rfl⟩ := List.mem_map.mp hp
      have hpar := mem_children.mp hc
      have hidq := hid q hq
      refine ⟨fun h => hidq.1 ((encloses_of_parent? hpar).trans h), fun h => ?_⟩
      rcases h.eq_or_parent hpar with heq | h
      · exact hidq.1 (heq ▸ encloses_of_parent? hpar)
      · exact hidq.2 h
    have ih := pairwise_visit t _ hnext
    rw [visit_cons, List.pairwise_cons]
    refine ⟨?_, ih⟩
    intro p hp hpid
    obtain ⟨q, hq, k, hk, -⟩ := (mem_visit t _ p).mp hp
    have hqid : t.Encloses q.1 id := Encloses.trans ⟨k, hk⟩ hpid
    rcases List.mem_append.mp hq with hq | hq
    · obtain ⟨c, hc, rfl⟩ := List.mem_map.mp hq
      exact not_encloses_of_parent? (mem_children.mp hc) hqid
    · exact (hid q hq).2 hqid
termination_by t.pending stack
decreasing_by exact t.pending_children_lt id d (d + 1) rest

theorem pairwise_depthFirst (t : CallTree) (start : NodeId) :
    (t.depthFirst start).Pairwise fun p q => ¬ t.Encloses q.1 p.1 := by
  by_cases h : t.contains start
  · rw [depthFirst_of_contains h]
    exact pairwise_visit t [(start, 0)] (List.pairwise_singleton _ _)
  · rw [depthFirst_of_foreign h]
    exact List.Pairwise.nil

theorem nodup_depthFirst (t : CallTree) (start : NodeId) :
    ((t.depthFirst start).map Prod.fst).Nodup := by
  rw [List.Nodup, List.pairwise_map]
  apply (pairwise_depthFirst t start).imp
  intro p q h heq
  rw [heq] at h
  exact h (Encloses.refl q.1)

/-- From entries that each go on from `p`, the deepest first, the walk goes on step by step. -/
theorem isChain_visit (t : CallTree) (p : NodeId × Nat) (stack : List (NodeId × Nat))
    (hstep : ∀ q ∈ stack, t.WalkStep p q) (hdepth : stack.Pairwise fun q r => r.2 ≤ q.2) :
    List.IsChain t.WalkStep (p :: t.visit stack) := by
  match stack with
  | [] => simp
  | (id, d) :: rest =>
    obtain ⟨hd, hrest⟩ := List.pairwise_cons.mp hdepth
    obtain ⟨h1, hle, c, hc, hanc⟩ := hstep (id, d) List.mem_cons_self
    rw [visit_cons]
    refine List.IsChain.cons_cons ⟨h1, hle, c, hc, hanc⟩ (isChain_visit t (id, d) _ ?_ ?_)
    · intro q hq
      rcases List.mem_append.mp hq with hq | hq
      · obtain ⟨b, hb, rfl⟩ := List.mem_map.mp hq
        exact ⟨by simp, Nat.le_refl _, id, mem_children.mp hb, by simp⟩
      · -- an older entry hangs from above the caller `c` of the call just visited
        obtain ⟨hq1, -, b, hb, hbanc⟩ := hstep q (List.mem_cons_of_mem _ hq)
        have hqd : q.2 ≤ d := hd q hq
        refine ⟨hq1, by simp only; omega, b, hb, ?_⟩
        have hsplit : p.2 + 1 - q.2 = (p.2 + 1 - d) + (d - q.2) := by
          simp only at hle
          omega
        rw [hsplit] at hbanc
        have hbc := ancestor_rest hanc hbanc
        have hstep : d + 1 - q.2 = (d - q.2) + 1 := by omega
        simp only [hstep]
        exact ancestor_succ.mpr ⟨c, hc, hbc⟩
    · refine List.pairwise_append.mpr ⟨?_, hrest, ?_⟩
      · rw [List.pairwise_map]
        exact List.pairwise_of_forall fun _ _ => Nat.le_refl _
      · intro q hq r hr
        obtain ⟨b, -, rfl⟩ := List.mem_map.mp hq
        exact Nat.le_succ_of_le (hd r hr)
termination_by t.pending stack
decreasing_by exact t.pending_children_lt id d (d + 1) rest

theorem depthFirst_eq_cons {start : NodeId} (h : t.contains start) :
    t.depthFirst start = (start, 0) :: t.visit ((t.children start).map (·, 1)) := by
  rw [depthFirst_of_contains h, visit_cons, List.append_nil]

theorem isChain_depthFirst (t : CallTree) (start : NodeId) :
    List.IsChain t.WalkStep (t.depthFirst start) := by
  by_cases h : t.contains start
  · rw [depthFirst_eq_cons h]
    apply isChain_visit
    · intro q hq
      obtain ⟨c, hc, rfl⟩ := List.mem_map.mp hq
      exact ⟨Nat.le_refl _, Nat.le_refl _, start, mem_children.mp hc, by simp⟩
    · rw [List.pairwise_map]
      exact List.pairwise_of_forall fun _ _ => Nat.le_refl _
  · rw [depthFirst_of_foreign h]
    exact List.IsChain.nil

end CallTree
end SlowRequest
