import SlowRequest.CallTree.Node
/-!
# Arenas of calls

Calls in one array in the order of insertion, linked by handles in both directions. Linking a new
call under an older one keeps the two directions in step.
-/
namespace SlowRequest

abbrev Arena := Array Node

namespace Arena

def parentOf (nodes : Arena) (j : Nat) : Option NodeId := nodes[j]?.bind Node.parent

def childrenOf (nodes : Arena) (i : Nat) : List NodeId :=
  ((List.range nodes.size).filter fun j => parentOf nodes j = some ⟨i⟩).map NodeId.mk

/-- Parents are older than their children, and child lists say the same as parent links. -/
structure Consistent (nodes : Arena) : Prop where
  parent_lt : ∀ (j : Nat) (p : NodeId), parentOf nodes j = some p → p.index < j
  parent_isSome : ∀ (j : Nat), 0 < j → j < nodes.size → (parentOf nodes j).isSome
  children_eq : ∀ (i : Nat) (n : Node), nodes[i]? = some n → n.children.toList = childrenOf nodes i

def link (nodes : Arena) (node : Node) : Arena :=
  match node.parent with
  | none => nodes.push node
  | some p =>
    (nodes.modify p.index fun n => { n with children := n.children.push ⟨nodes.size⟩ }).push node

theorem size_link (nodes : Arena) (node : Node) : (link nodes node).size = nodes.size + 1 := by
  unfold link
  split <;> simp

theorem parentOf_link (nodes : Arena) (node : Node) (j : Nat) :
    parentOf (link nodes node) j = if j = nodes.size then node.parent else parentOf nodes j := by
  unfold link parentOf
  split
  · rename_i hp
    rw [Array.getElem?_push]
    split <;> simp_all
  · rename_i p hp
    rw [Array.getElem?_push, Array.getElem?_modify]
    by_cases hj : j = nodes.size
    · simp [hj, hp]
    · by_cases hpj : p.index = j
      · subst hpj
        cases h : nodes[p.index]? <;> simp [hj]
      · simp [hj, hpj]

theorem parentOf_eq_none_of_size_le {nodes : Arena} {j : Nat} (h : nodes.size ≤ j) :
    parentOf nodes j = none := by
  simp [parentOf, Array.getElem?_eq_none h]

theorem childrenOf_link (nodes : Arena) (node : Node) (i : Nat) :
    childrenOf (link nodes node) i =
      childrenOf nodes i ++ if node.parent = some ⟨i⟩ then [⟨nodes.size⟩] else [] := by
  have hold : ∀ j ∈ List.range nodes.size,
      decide (parentOf (link nodes node) j = some ⟨i⟩) = decide (parentOf nodes j = some ⟨i⟩) := by
    intro j hj
    have hj' : j ≠ nodes.size := by have := List.mem_range.mp hj; omega
    rw [parentOf_link, if_neg hj']
  unfold childrenOf
  rw [size_link, List.range_succ, List.filter_append, List.map_append, List.filter_congr hold]
  congr 1
  by_cases h : node.parent = some ⟨i⟩ <;> simp [parentOf_link, h]

theorem childrenOf_size {nodes : Arena} (hc : Consistent nodes) :
    childrenOf nodes nodes.size = [] := by
  simp only [childrenOf, List.map_eq_nil_iff, List.filter_eq_nil_iff, List.mem_range,
    decide_eq_true_eq]
  intro j hj hp
  have := hc.parent_lt j _ hp
  simp at this
  omega

theorem Consistent.empty : Consistent (#[] : Arena) where
  parent_lt j p h := by simp [parentOf] at h
  parent_isSome j _ h := by simp at h
  children_eq i n h := by simp at h

theorem Consistent.link {nodes : Arena} (hc : Consistent nodes) {node : Node}
    (hchildren : node.children = #[])
    (hroot : node.parent = none → nodes.size = 0)
    (hparent : ∀ p, node.parent = some p → p.index < nodes.size) :
    Consistent (link nodes node) where
  parent_lt j p h := by
    rw [parentOf_link] at h
    split at h
    · rename_i hj
      exact hj ▸ hparent p h
    · exact hc.parent_lt j p h
  parent_isSome j h0 h := by
    rw [size_link] at h
    rw [parentOf_link]
    split
    · rename_i hj
      cases hp : node.parent with
      | none => have := hroot hp; omega
      | some p => rfl
    · exact hc.parent_isSome j h0 (by omega)
  children_eq i n h := by
    rw [childrenOf_link]
    unfold Arena.link at h
    split at h
    · rename_i hp
      have hs := hroot hp
      rw [Array.getElem?_push] at h
      split at h
      · rename_i hi
        cases h
        simp [hi, hchildren, hp, childrenOf_size hc]
      · rw [Array.getElem?_eq_none (by omega)] at h
        cases h
    · rename_i p hp
      have hpn := hparent p hp
      rw [Array.getElem?_push] at h
      split at h
      · rename_i hi
        cases h
        have hne : p ≠ ⟨nodes.size⟩ := by intro he; simp [he] at hpn
        simp [hi, hchildren, hp, hne, childrenOf_size hc]
      · rw [Array.getElem?_modify] at h
        split at h
        · rename_i hpi
          obtain ⟨m, hm, rfl⟩ := Option.map_eq_some_iff.mp h
          have hpe : p = ⟨i⟩ := by cases p; simp_all
          simp [hp, hpe, hc.children_eq i m hm]
        · rename_i hpi
          have hne : p ≠ ⟨i⟩ := by intro he; simp [he] at hpi
          simp [hp, hne, hc.children_eq i n h]

end Arena
end SlowRequest
