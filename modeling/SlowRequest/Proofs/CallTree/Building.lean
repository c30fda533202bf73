import Mathlib.Data.List.Induction
import SlowRequest.Proofs.CallTree.PreOrder
/-! # Building trees -/
namespace SlowRequest

/-- The links of a tree: only the root was made from no other call, calls are younger than the one
they were made from, and the calls made from one are listed once each, the oldest first. -/
structure CallTree.Linked (t : CallTree) : Prop where
  root : ∀ id, t.contains id → (t.parent? id = none ↔ id = t.root)
  older : ∀ id p, t.parent? id = some p → p.index < id.index
  ascending : ∀ id, (t.children id).Pairwise (·.index < ·.index)
  listed : ∀ id c, (t.children id).count c = if t.parent? c = some id then 1 else 0

theorem CallTree.linked (t : CallTree) : t.Linked where
  root _ := parent?_eq_none
  older _ _ := parent?_index_lt
  ascending := t.pairwise_children
  listed id c := by
    split
    · rename_i hp
      exact List.count_eq_one_of_mem (t.nodup_children id) (mem_children.mpr hp)
    · rename_i hp
      exact List.count_eq_zero.mpr fun hc => hp (mem_children.mp hc)

namespace CallTree.Builder

structure Addition where
  parent : NodeId
  call : Call

/-- Answers a request; a builder that refuses it goes on as it was. -/
def attempt (b : Builder) (a : Addition) : Except TreeError NodeId × Builder :=
  match b.addChild a.parent a.call with
  | .ok (id, b') => (.ok id, b')
  | .error e => (.error e, b)

def attemptAll (b : Builder) : List Addition → List (Except TreeError NodeId) × Builder
  | [] => ([], b)
  | a :: later =>
    let (answer, b) := b.attempt a
    let (answers, b) := b.attemptAll later
    (answer :: answers, b)

/-- The requests whose answer is a number. -/
def granted (requests : List Addition) (answers : List (Except TreeError NodeId)) :
    List Addition := ((requests.zip answers).filter fun p => p.2.isOk).map Prod.fst

/-- The root, and under it the calls of requests in their order, numbered by their places. -/
def recorded (root : Call) (requests : List Addition) : List (Call × Option NodeId) :=
  (numbered root 0, none) ::
    (requests.zipIdx 1).map fun (a, i) => (numbered a.call i, some a.parent)

variable {root : Call} {requests : List Addition} {answers : List (Except TreeError NodeId)}
  {b : Builder}

private theorem attempt_known {a : Addition} (h : a.parent.index < b.nodes.size) :
    ∃ b', b.attempt a = (.ok ⟨b.nodes.size⟩, b') ∧
      b'.nodes = b.nodes.link
        { numbered a.call b.nodes.size with parent := some a.parent, children := #[] } := by
  rw [attempt, addChild, dif_pos h]
  exact ⟨_, rfl, rfl⟩

private theorem attempt_unknown {a : Addition} (h : ¬ a.parent.index < b.nodes.size) :
    b.attempt a = (.error (.unknownNode a.parent), b) := by
  rw [attempt, addChild, dif_neg h]

private theorem attemptAll_concat (b : Builder) (requests : List Addition) (a : Addition) :
    b.attemptAll (requests ++ [a]) =
      ((b.attemptAll requests).1 ++ [((b.attemptAll requests).2.attempt a).1],
        ((b.attemptAll requests).2.attempt a).2) := by
  induction requests generalizing b with
  | nil => rfl
  | cons first requests ih => simp only [List.cons_append, attemptAll, ih]

private theorem granted_concat (hlength : answers.length = requests.length) (a : Addition)
    (answer : Except TreeError NodeId) :
    granted (requests ++ [a]) (answers ++ [answer]) =
      granted requests answers ++ if answer.isOk then [a] else [] := by
  simp only [granted, List.zip_append hlength.symm, List.filter_append, List.map_append]
  cases answer <;> rfl

private theorem recorded_concat (root : Call) (requests : List Addition) (a : Addition) :
    recorded root (requests ++ [a]) = recorded root requests ++
      [(numbered a.call (requests.length + 1), some a.parent)] := by
  simp [recorded, List.zipIdx_append, Nat.add_comm]

def entry (n : Node) : Call × Option NodeId := (n.toCall, n.parent)

private theorem map_entry_modify (nodes : List Node) (i : Nat) (f : Array NodeId → Array NodeId) :
    (nodes.modify i fun n => { n with children := f n.children }).map entry =
      nodes.map entry := by
  induction nodes generalizing i with
  | nil => simp
  | cons n nodes ih =>
    cases i with
    | zero => rfl
    | succ i => rw [List.modify_succ_cons, List.map_cons, List.map_cons, ih]

theorem map_entry_link (nodes : Arena) (node : Node) :
    (nodes.link node).toList.map entry = nodes.toList.map entry ++ [entry node] := by
  rw [Arena.link]
  split
  · rw [Array.toList_push, List.map_append, List.map_singleton]
  · rename_i p _
    rw [Array.toList_push, Array.toList_modify, List.map_append,
      map_entry_modify nodes.toList p.index (·.push ⟨nodes.size⟩), List.map_singleton]

/-- What a builder holds that started from a root and gave these answers to these requests. -/
structure Built (root : Call) (requests : List Addition)
    (answers : List (Except TreeError NodeId)) (b : Builder) : Prop where
  length : answers.length = requests.length
  ids : answers.filterMap Except.toOption =
    (List.range' 1 (granted requests answers).length).map NodeId.mk
  entries : b.nodes.toList.map entry = recorded root (granted requests answers)

theorem Built.size (h : Built root requests answers b) :
    b.nodes.size = (granted requests answers).length + 1 := by
  have hlength := congrArg List.length h.entries
  simpa [recorded] using hlength

private theorem built_ofRoot (root : Call) : Built root [] [] (ofRoot root) := ⟨rfl, rfl, rfl⟩

theorem Built.attempt (h : Built root requests answers b) (a : Addition) :
    Built root (requests ++ [a]) (answers ++ [(b.attempt a).1]) (b.attempt a).2 := by
  have hsize := h.size
  by_cases ha : a.parent.index < b.nodes.size
  · obtain ⟨b', heq, hnodes⟩ := attempt_known ha
    rw [heq]
    refine ⟨by simp [h.length], ?_, ?_⟩
    · rw [List.filterMap_append, h.ids, granted_concat h.length, hsize, Nat.add_comm _ 1]
      simp [Except.toOption, Except.isOk, Except.toBool, List.range'_concat]
    · rw [hnodes, map_entry_link, h.entries, granted_concat h.length, hsize]
      exact (recorded_concat root _ a).symm
  · rw [attempt_unknown ha]
    have hgranted := granted_concat h.length a (.error (.unknownNode a.parent))
    rw [show (Except.error (TreeError.unknownNode a.parent) : Except TreeError NodeId).isOk = false
      from rfl, if_neg Bool.false_ne_true, List.append_nil] at hgranted
    refine ⟨by simp [h.length], ?_, ?_⟩
    · rw [List.filterMap_append, h.ids, hgranted]
      exact List.append_nil _
    · rw [hgranted]
      exact h.entries

theorem exists_built (root : Call) (requests : List Addition) :
    ∃ answers b, (ofRoot root).attemptAll requests = (answers, b) ∧
      Built root requests answers b := by
  refine ⟨_, _, rfl, ?_⟩
  induction requests using List.reverseRecOn with
  | nil => exact built_ofRoot root
  | append_singleton requests a ih =>
    rw [attemptAll_concat]
    exact ih.attempt a

/-- Requests made of a builder that holds a root end in a tree of the root and the calls granted.
The calls granted are answered with their numbers, one, two and so on in their order, and stand in
the tree at these places under the parents they name. A further request would be answered with the
next number if it names a call of the tree, and refused otherwise, with the builder as it was. -/
theorem attemptAll_builds (root : Call) (requests : List Addition) :
    ∃ answers b t, (ofRoot root).attemptAll requests = (answers, b) ∧ b.build = .ok t ∧
      answers.length = requests.length ∧
      answers.filterMap Except.toOption =
        (List.range' 1 (granted requests answers).length).map NodeId.mk ∧
      t.nodes.toList.map entry = recorded root (granted requests answers) ∧
      t.Linked ∧
      ∀ a, (t.contains a.parent ∧ (b.attempt a).1 = .ok ⟨t.size⟩) ∨
        (¬ t.contains a.parent ∧ b.attempt a = (.error (.unknownNode a.parent), b)) := by
  obtain ⟨answers, b, hrun, h⟩ := exists_built root requests
  have hpos : 0 < b.nodes.size := by
    have hsize := h.size
    omega
  refine ⟨answers, b, ⟨b.nodes, b.consistent, hpos⟩, hrun, dif_pos hpos, h.length, h.ids,
    h.entries, CallTree.linked _, ?_⟩
  intro a
  rw [contains_iff]
  by_cases ha : a.parent.index < b.nodes.size
  · obtain ⟨b', heq, -⟩ := attempt_known ha
    exact .inl ⟨ha, by rw [heq]; rfl⟩
  · exact .inr ⟨ha, attempt_unknown ha⟩

end CallTree.Builder
end SlowRequest
