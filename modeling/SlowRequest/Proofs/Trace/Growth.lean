import SlowRequest.Proofs.CallTree.Building
import SlowRequest.Trace.Span
/-!
# Growing trees

Every span grows into a tree. What it comes to is told without the stack: the calls of a span take
consecutive places in the tree, its own call the first of them, and then those of its children, one
child after the other.
-/
namespace SlowRequest

namespace Span

open CallTree (Builder)
open CallTree.Builder (numbered entry map_entry_link)

variable {now : Instant}

mutual

def callsAt (now : Instant) (parent : Option NodeId) (i : Nat) : Span → List (Call × Option NodeId)
  | mk r cs => (numbered (r.toCall now) i, parent) :: callsBelow now ⟨i⟩ (i + 1) cs

def callsBelow (now : Instant) (parent : NodeId) (i : Nat) :
    List Span → List (Call × Option NodeId)
  | [] => []
  | s :: ss => callsAt now (some parent) i s ++ callsBelow now parent (i + s.size) ss

end

mutual

theorem length_callsAt (parent : Option NodeId) (i : Nat) (s : Span) :
    (callsAt now parent i s).length = s.size := by
  cases s with
  | mk r cs => rw [callsAt, List.length_cons, length_callsBelow, size]

private theorem length_callsBelow (parent : NodeId) (i : Nat) (ss : List Span) :
    (callsBelow now parent i ss).length = sizeAll ss := by
  cases ss with
  | nil => rw [callsBelow, sizeAll, List.length_nil]
  | cons s ss => rw [callsBelow, List.length_append, length_callsAt, length_callsBelow, sizeAll]

end

private theorem addChild_ok {b : Builder} {parent : NodeId} (h : parent.index < b.nodes.size)
    (call : Call) :
    ∃ b', b.addChild parent call = .ok (⟨b.nodes.size⟩, b') ∧
      b'.nodes.toList.map entry =
        b.nodes.toList.map entry ++ [(numbered call b.nodes.size, some parent)] := by
  rw [Builder.addChild, dif_pos h]
  exact ⟨_, rfl, map_entry_link ..⟩

/-- The spans on top of a stack that were made from one call are added, with all that is below
them, before the rest of the stack is looked at. -/
theorem growFrom_madeFrom (now : Instant) (ss : List Span) {b : Builder} {parent : NodeId}
    (h : parent.index < b.nodes.size) (rest : List (NodeId × Span)) :
    ∃ b', growFrom now b (madeFrom parent ss ++ rest) = growFrom now b' rest ∧
      b'.nodes.toList.map entry =
        b.nodes.toList.map entry ++ callsBelow now parent b.nodes.size ss := by
  match ss with
  | [] => exact ⟨b, rfl, by rw [callsBelow, List.append_nil]⟩
  | mk r cs :: ss =>
    obtain ⟨b₁, hadd, hcall⟩ := addChild_ok h (r.toCall now)
    have hsize₁ : b₁.nodes.size = b.nodes.size + 1 := by
      simpa using congrArg List.length hcall
    -- now the children of the first span lie on the stack above the other spans
    have hid : (NodeId.mk b.nodes.size).index < b₁.nodes.size := by
      rw [hsize₁]
      exact Nat.lt_succ_self _
    obtain ⟨b₂, hchildren, hbelow⟩ :=
      growFrom_madeFrom now cs hid (madeFrom parent ss ++ rest)
    have hsize₂ : b₂.nodes.size = b.nodes.size + (mk r cs).size := by
      have hlength := congrArg List.length hbelow
      simp only [List.length_map, List.length_append, length_callsBelow, Array.length_toList]
        at hlength
      rw [hlength, hsize₁, size]
      omega
    have hparent : parent.index < b₂.nodes.size := by omega
    obtain ⟨b₃, hlater, hrest⟩ := growFrom_madeFrom now ss hparent rest
    refine ⟨b₃, ?_, ?_⟩
    · rw [← hlater, ← hchildren, madeFrom, List.map_cons, List.cons_append, growFrom, hadd]
      rfl
    · rw [hrest, hbelow, hcall, hsize₁, hsize₂, callsBelow, callsAt]
      simp only [List.append_assoc, List.cons_append, List.nil_append]
termination_by sizeAll ss
decreasing_by
  · rw [sizeAll, size]
    omega
  · rw [sizeAll, size]
    omega

private theorem toTree_ok (now : Instant) (s : Span) : ∃ t, s.toTree now = .ok t ∧
    t.nodes.toList.map entry = callsAt now none 0 s := by
  cases s with
  | mk r cs =>
    have hroot : (NodeId.mk 0).index < (Builder.ofRoot (r.toCall now)).nodes.size := Nat.one_pos
    obtain ⟨b, hgrow, hcalls⟩ := growFrom_madeFrom now cs hroot []
    have hentries : b.nodes.toList.map entry = callsAt now none 0 (mk r cs) := by
      rw [hcalls, callsAt]
      rfl
    have hsize : 0 < b.nodes.size := by
      have hlength := congrArg List.length hentries
      rw [List.length_map, Array.length_toList, length_callsAt, size] at hlength
      omega
    refine ⟨⟨b.nodes, b.consistent, hsize⟩, ?_, hentries⟩
    rw [List.append_nil, growFrom] at hgrow
    rw [toTree, call, children, hgrow]
    exact dif_pos hsize

def tree (now : Instant) (s : Span) : CallTree :=
  match h : s.toTree now with
  | .ok t => t
  | .error _ => absurd h (by obtain ⟨t, ht, -⟩ := toTree_ok now s; simp [ht])

theorem toTree_eq (now : Instant) (s : Span) : s.toTree now = .ok (s.tree now) := by
  rw [tree]
  split
  · assumption
  · rename_i h
    obtain ⟨t, ht, -⟩ := toTree_ok now s
    rw [ht] at h
    cases h

theorem entries_tree (now : Instant) (s : Span) :
    (s.tree now).nodes.toList.map entry = callsAt now none 0 s := by
  obtain ⟨t, ht, hentries⟩ := toTree_ok now s
  rw [toTree_eq] at ht
  cases ht
  exact hentries

theorem root_tree (now : Instant) (s : Span) :
    ((s.tree now).get? (s.tree now).root).map Node.toCall =
      some (numbered (s.call.toCall now) 0) := by
  have hfirst := congrArg (fun calls => calls[0]?.map Prod.fst) (entries_tree now s)
  cases s with
  | mk r cs =>
    simp only [callsAt, List.getElem?_map, Array.getElem?_toList, Option.map_map,
      List.getElem?_cons_zero, Option.map_some] at hfirst
    exact hfirst

end Span
end SlowRequest
