import SlowRequest.Proofs.Diagnosis.Grouping
namespace SlowRequest.Aggregate

variable {t : CallTree} {ids : List NodeId} {id : NodeId}

def allMembers (groups : List Aggregate) : List NodeId := groups.flatMap fun a => a.members.toList

private theorem allMembers_insert_perm (id : NodeId) (n : Node) (groups : List Aggregate) :
    (allMembers (insert id n groups)).Perm (allMembers groups ++ [id]) := by
  induction groups with
  | nil => exact .refl _
  | cons a groups ih =>
    rw [insert]
    by_cases hkey : a.key = .of n
    · rw [if_pos hkey, allMembers, List.flatMap_cons, allMembers, List.flatMap_cons, push,
        Array.toList_push, List.append_assoc, List.append_assoc]
      exact List.perm_append_comm.append_left _
    · rw [if_neg hkey, allMembers, List.flatMap_cons, allMembers, List.flatMap_cons,
        List.append_assoc]
      exact ih.append_left _

private theorem allMembers_collect_perm {groups result : List Aggregate}
    (h : collect t ids groups = .ok result) :
    (allMembers result).Perm (allMembers groups ++ ids) := by
  induction ids generalizing groups with
  | nil =>
    cases h
    rw [List.append_nil]
  | cons id ids ih =>
    rw [collect] at h
    cases hn : t.node id with
    | error e =>
      rw [hn] at h
      cases h
    | ok n =>
      rw [hn] at h
      refine (ih h).trans ?_
      rw [List.append_cons]
      exact (allMembers_insert_perm id n groups).append_right ids

theorem collect_foreign (h : ids.find? (fun id => !t.contains id) = some id)
    (groups : List Aggregate) : collect t ids groups = .error (.unknownNode id) := by
  induction ids generalizing groups with
  | nil => cases h
  | cons x ids ih =>
    rw [collect]
    by_cases hx : t.contains x
    · obtain ⟨n, hn⟩ := CallTree.exists_get? hx
      rw [List.find?_cons_of_neg (by simpa using hx)] at h
      rw [CallTree.node_of_get? hn]
      exact ih h _
    · rw [List.find?_cons_of_pos (by simpa using hx)] at h
      cases h
      rw [CallTree.node, CallTree.get?_of_foreign hx]
      rfl

/-- Aggregates with keys of their own, in the order in which `ids` come to these. Together they
hold all of `ids`, and each holds the calls of its key in their order, with the times of these and
their sums from the left. -/
structure Parts (t : CallTree) (ids : List NodeId) (groups : List Aggregate) : Prop where
  distinct : (groups.map key).Nodup
  order : groups.map key = (ids.filterMap t.key?).eraseDups
  perm : (allMembers groups).Perm ids
  members : ∀ a ∈ groups, a.members.toList = ids.filter fun id => t.key? id = some a.key
  exclusiveTimes : ∀ a ∈ groups, a.exclusiveTimes.toList = a.members.toList.map t.exclusiveTime
  exclusiveTime : ∀ a ∈ groups, a.exclusiveTime = leftSum a.exclusiveTimes.toList
  duration : ∀ a ∈ groups, a.duration = leftSum (a.members.toList.map t.duration)

private theorem key_grouped (t : CallTree) (ids : List NodeId) :
    (grouped t ids).map key = t.operations ids := by
  rw [grouped, List.map_map]
  exact List.map_id _

private theorem parts_grouped (hids : ∀ id ∈ ids, t.contains id) : Parts t ids (grouped t ids) where
  distinct := by
    rw [key_grouped]
    exact t.nodup_operations ids
  order := key_grouped t ids
  perm := allMembers_collect_perm (group_eq_collect t ids ▸ group_eq hids)
  members a ha := by
    obtain ⟨key, -, rfl⟩ := List.mem_map.mp ha
    exact List.filter_congr fun id _ => beq_eq_decide _ _
  exclusiveTimes a ha := by
    obtain ⟨key, -, rfl⟩ := List.mem_map.mp ha
    rfl
  exclusiveTime a ha := by
    obtain ⟨key, -, rfl⟩ := List.mem_map.mp ha
    rfl
  duration a ha := by
    obtain ⟨key, -, rfl⟩ := List.mem_map.mp ha
    rfl

/-- Grouping fails with the first call that is not one of the tree. If all are, it parts them by
their keys. -/
theorem group_parts (t : CallTree) (ids : List NodeId) :
    (∃ id, ids.find? (fun id => !t.contains id) = some id ∧
        group t ids = .error (.unknownNode id)) ∨
      (∀ id ∈ ids, t.contains id) ∧ ∃ groups, group t ids = .ok groups ∧ Parts t ids groups := by
  cases hforeign : ids.find? fun id => !t.contains id with
  | some id =>
    refine .inl ⟨id, rfl, ?_⟩
    rw [group_eq_collect]
    exact collect_foreign hforeign []
  | none =>
    have hids : ∀ id ∈ ids, t.contains id := by simpa using hforeign
    exact .inr ⟨hids, _, group_eq hids, parts_grouped hids⟩

end SlowRequest.Aggregate
