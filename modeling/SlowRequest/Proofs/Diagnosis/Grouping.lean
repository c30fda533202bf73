import Mathlib.Data.List.Nodup
import SlowRequest.Diagnosis.Operations
import SlowRequest.Proofs.CallTree.PreOrder
import SlowRequest.Proofs.CallTree.Timing
import SlowRequest.Proofs.Diagnosis.Aggregation
namespace SlowRequest

/-- Summed from the left, from zero. -/
def leftSum (xs : List Float) : Float := xs.foldl (· + ·) 0.0

theorem leftSum_concat (xs : List Float) (x : Float) : leftSum (xs ++ [x]) = leftSum xs + x := by
  rw [leftSum, List.foldl_append]
  rfl

theorem nodup_eraseDups {α : Type} [BEq α] [LawfulBEq α] (l : List α) : l.eraseDups.Nodup := by
  match l with
  | [] => simp
  | a :: l =>
    rw [List.eraseDups_cons, List.nodup_cons]
    refine ⟨?_, nodup_eraseDups _⟩
    intro h
    have := (List.mem_filter.mp (List.mem_eraseDups.mp h)).2
    simp at this
termination_by l.length
decreasing_by exact Nat.lt_succ_of_le (List.length_filter_le _ l)

theorem eraseDups_filter {α : Type} [BEq α] [LawfulBEq α] (p : α → Bool) (l : List α) :
    (l.filter p).eraseDups = l.eraseDups.filter p := by
  match l with
  | [] => simp
  | a :: l =>
    have ih := eraseDups_filter p (l.filter fun b => !b == a)
    rw [List.filter_comm] at ih
    rw [List.eraseDups_cons, List.filter_cons, List.filter_cons]
    by_cases ha : p a = true
    · rw [if_pos ha, if_pos ha, List.eraseDups_cons, ih]
    · rw [if_neg ha, if_neg ha, ← ih]
      -- An element that passes is not the first one.
      congr 1
      apply (List.filter_eq_self.mpr _).symm
      intro b hb
      have hpass := (List.mem_filter.mp hb).2
      rw [Bool.not_eq_true', beq_eq_false_iff_ne]
      rintro rfl
      exact ha hpass
termination_by l.length
decreasing_by exact Nat.lt_succ_of_le (List.length_filter_le _ l)

theorem eraseDups_map {α β : Type} [BEq α] [LawfulBEq α] [BEq β] [LawfulBEq β] {f : α → β}
    (hf : Function.Injective f) (l : List α) : (l.map f).eraseDups = l.eraseDups.map f := by
  match l with
  | [] => simp
  | a :: l =>
    have hsame : ((fun b => !b == f a) ∘ f) = fun b => !b == a := by
      funext b
      rw [Function.comp_apply, Bool.eq_iff_iff]
      simp [hf.eq_iff]
    rw [List.map_cons, List.eraseDups_cons, List.eraseDups_cons, List.map_cons, List.filter_map,
      hsame, eraseDups_map hf]
termination_by l.length
decreasing_by exact Nat.lt_succ_of_le (List.length_filter_le _ l)

private theorem eraseDups_concat {α : Type} [DecidableEq α] (l : List α) (a : α) :
    (l ++ [a]).eraseDups = l.eraseDups ++ if a ∈ l then [] else [a] := by
  rw [List.eraseDups_append, List.removeAll, List.filter_singleton]
  by_cases h : a ∈ l <;> simp [h, List.eraseDups_cons]

namespace CallTree

variable {t : CallTree} {ids seen : List NodeId} {id : NodeId} {n : Node}

/-- Those of `ids` that are calls of the operation. -/
def callsOf (t : CallTree) (ids : List NodeId) (key : OperationKey) : List NodeId :=
  ids.filter fun id => t.key? id == some key

/-- The operations of `ids`, in the order in which they are first met. -/
def operations (t : CallTree) (ids : List NodeId) : List OperationKey :=
  (ids.filterMap t.key?).eraseDups

theorem mem_callsOf {key : OperationKey} :
    id ∈ t.callsOf ids key ↔ id ∈ ids ∧ t.key? id = some key := by
  rw [callsOf, List.mem_filter, beq_iff_eq]

theorem mem_operations {key : OperationKey} :
    key ∈ t.operations ids ↔ ∃ id ∈ ids, t.key? id = some key := by
  rw [operations, List.mem_eraseDups, List.mem_filterMap]

theorem nodup_operations (t : CallTree) (ids : List NodeId) : (t.operations ids).Nodup :=
  nodup_eraseDups _

private theorem callsOf_ne_nil {key : OperationKey} (h : key ∈ t.operations ids) :
    t.callsOf ids key ≠ [] := by
  obtain ⟨id, hid, hkey⟩ := mem_operations.mp h
  exact List.ne_nil_of_mem (mem_callsOf.mpr ⟨hid, hkey⟩)

private theorem callsOf_concat_of_eq (h : t.get? id = some n) :
    t.callsOf (seen ++ [id]) (.of n) = t.callsOf seen (.of n) ++ [id] := by
  rw [callsOf, List.filter_append, List.filter_singleton, key?_of_get? h, beq_self_eq_true]
  rfl

private theorem callsOf_concat_of_ne {key : OperationKey} (h : t.get? id = some n)
    (hkey : key ≠ .of n) : t.callsOf (seen ++ [id]) key = t.callsOf seen key := by
  have hne : (t.key? id == some key) = false := by
    rw [key?_of_get? h, beq_eq_false_iff_ne]
    exact fun heq => hkey (Option.some.inj heq).symm
  rw [callsOf, List.filter_append, List.filter_singleton, hne, callsOf]
  exact List.append_nil _

private theorem callsOf_of_not_mem {key : OperationKey} (h : key ∉ t.operations seen) :
    t.callsOf seen key = [] := by
  rw [List.eq_nil_iff_forall_not_mem]
  intro x hx
  obtain ⟨hseen, hkey⟩ := mem_callsOf.mp hx
  exact h (mem_operations.mpr ⟨x, hseen, hkey⟩)

private theorem operations_concat (h : t.get? id = some n) :
    t.operations (seen ++ [id]) =
      t.operations seen ++ if .of n ∈ t.operations seen then [] else [.of n] := by
  have hone : [id].filterMap t.key? = [.of n] := by
    rw [List.filterMap_cons, key?_of_get? h]
    rfl
  simp only [operations, List.mem_eraseDups]
  rw [List.filterMap_append, hone, eraseDups_concat]

end CallTree

namespace Aggregate

variable {t : CallTree} {ids seen : List NodeId} {id : NodeId} {n : Node}

def ofCalls (t : CallTree) (key : OperationKey) (ids : List NodeId) : Aggregate where
  key
  members := ids.toArray
  exclusiveTimes := (ids.map t.exclusiveTime).toArray
  exclusiveTime := leftSum (ids.map t.exclusiveTime)
  duration := leftSum (ids.map t.duration)

theorem push_ofCalls (key : OperationKey) (ids : List NodeId) (h : t.get? id = some n) :
    (ofCalls t key ids).push id n = ofCalls t key (ids ++ [id]) := by
  simp only [ofCalls, push, List.map_append, List.map_singleton, leftSum_concat,
    List.push_toArray, CallTree.exclusiveTime_of_get? h, CallTree.duration_of_get? h]

theorem empty_eq_ofCalls (t : CallTree) (key : OperationKey) : empty key = ofCalls t key [] := rfl

private theorem ofNode_eq_ofCalls (h : t.get? id = some n) : ofNode id n = ofCalls t (.of n) [id] :=
  push_ofCalls (.of n) [] h

/-- The aggregates of the operations of `ids`. -/
def grouped (t : CallTree) (ids : List NodeId) : List Aggregate :=
  (t.operations ids).map fun key => ofCalls t key (t.callsOf ids key)

private theorem map_grouped_of_not_mem {keys : List OperationKey} (h : t.get? id = some n)
    (hkeys : .of n ∉ keys) :
    (keys.map fun key => ofCalls t key (t.callsOf (seen ++ [id]) key)) =
      keys.map fun key => ofCalls t key (t.callsOf seen key) := by
  apply List.map_congr_left
  intro key hkey
  rw [CallTree.callsOf_concat_of_ne h fun heq => hkeys (heq ▸ hkey)]

private theorem insert_map_ofCalls {keys : List OperationKey} (h : t.get? id = some n)
    (hkeys : keys.Nodup) :
    insert id n (keys.map fun key => ofCalls t key (t.callsOf seen key)) =
      (keys.map fun key => ofCalls t key (t.callsOf (seen ++ [id]) key)) ++
        if .of n ∈ keys then [] else [ofNode id n] := by
  induction keys with
  | nil => rfl
  | cons key keys ih =>
    obtain ⟨hkey, hkeys⟩ := List.nodup_cons.mp hkeys
    rw [List.map_cons, List.map_cons, insert]
    by_cases heq : key = .of n
    · subst heq
      rw [if_pos (show (ofCalls t (.of n) _).key = .of n from rfl), push_ofCalls _ _ h,
        CallTree.callsOf_concat_of_eq h, map_grouped_of_not_mem h hkey,
        if_pos List.mem_cons_self, List.append_nil]
    · rw [if_neg (show (ofCalls t key _).key ≠ .of n from heq), ih hkeys,
        CallTree.callsOf_concat_of_ne h heq, List.cons_append]
      simp only [List.mem_cons, Ne.symm heq, false_or]

private theorem insert_grouped (h : t.get? id = some n) :
    insert id n (grouped t seen) = grouped t (seen ++ [id]) := by
  rw [grouped, insert_map_ofCalls h (t.nodup_operations seen), grouped,
    CallTree.operations_concat h, List.map_append]
  congr 1
  split
  · rfl
  · rename_i hnew
    rw [List.map_singleton, CallTree.callsOf_concat_of_eq h, CallTree.callsOf_of_not_mem hnew,
      List.nil_append, ofNode_eq_ofCalls h]

private theorem collect_grouped (seen : List NodeId) (hids : ∀ id ∈ ids, t.contains id) :
    collect t ids (grouped t seen) = .ok (grouped t (seen ++ ids)) := by
  induction ids generalizing seen with
  | nil => rw [collect, List.append_nil]
  | cons id ids ih =>
    obtain ⟨n, hn⟩ := CallTree.exists_get? (hids id List.mem_cons_self)
    have hrest := ih (seen ++ [id]) fun x hx => hids x (List.mem_cons_of_mem _ hx)
    rw [List.append_assoc, List.singleton_append, ← insert_grouped hn] at hrest
    rw [collect, CallTree.node_of_get? hn]
    exact hrest

theorem group_eq (hids : ∀ id ∈ ids, t.contains id) : group t ids = .ok (grouped t ids) := by
  rw [group_eq_collect]
  exact collect_grouped [] hids

/-- The calls of `a` are some of `ids` in their order, and all have the key of `a`. -/
structure Gathers (t : CallTree) (ids : List NodeId) (a : Aggregate) : Prop where
  nonempty : a.members.toList ≠ []
  inOrder : a.members.toList.Sublist ids
  sameKey : ∀ id ∈ a.members.toList, ∃ n, t.get? id = some n ∧ OperationKey.of n = a.key

theorem gathers_of_mem_grouped {a : Aggregate} (h : a ∈ grouped t ids) : Gathers t ids a := by
  obtain ⟨key, hkey, rfl⟩ := List.mem_map.mp h
  refine ⟨CallTree.callsOf_ne_nil hkey, List.filter_sublist, ?_⟩
  intro id hid
  exact Option.map_eq_some_iff.mp (CallTree.mem_callsOf.mp hid).2

end Aggregate

variable {t : CallTree} {start : NodeId}

theorem timedCalls_sublist (t : CallTree) (start : NodeId) :
    (timedCalls t start).Sublist ((t.depthFirst start).map Prod.fst) :=
  List.filter_sublist

theorem timed_of_mem_timedCalls {id : NodeId} (h : id ∈ timedCalls t start) : t.Timed id := by
  have hany := (List.mem_filter.mp h).2
  obtain ⟨n, hn, hexclusive⟩ := (Option.any_eq_true _ _).mp hany
  apply CallTree.timed_of_get? hn
  cases htimer : n.measurement.timer? with
  | some timer => rfl
  | none => simp [Node.hasExclusive, Node.exclusive?, htimer] at hexclusive

private theorem leading_sublist (limit : Float) (minCalls : Nat) (sum : Float)
    (operations : List Aggregate) :
    (leading limit minCalls sum operations).Sublist operations := by
  induction operations generalizing sum with
  | nil => exact List.Sublist.refl []
  | cons a rest ih =>
    rw [leading]
    split
    · exact List.nil_sublist _
    · exact (ih _).cons_cons a

variable [NaNSums]

def ranked (t : CallTree) (start : NodeId) : List Aggregate :=
  (Aggregate.grouped t (timedCalls t start)).mergeSort fun a b => decide (b.rank ≤ a.rank)

theorem ranking_eq (t : CallTree) (start : NodeId) : ranking t start = .ok (ranked t start) := by
  have hcalls : ∀ id ∈ timedCalls t start, t.contains id :=
    fun id hid => (timed_of_mem_timedCalls hid).contains
  rw [ranking, Aggregate.group_eq hcalls]
  rfl

theorem timeWastingOperations_eq (th : Thresholds) (hstart : t.contains start) :
    timeWastingOperations th t start = .ok (leading (th.proportion * t.duration start)
      th.minCallsTimeWasting 0.0 (ranked t start)) := by
  obtain ⟨n, hn⟩ := CallTree.exists_get? hstart
  rw [timeWastingOperations, CallTree.node_of_get? hn, ranking_eq, CallTree.duration_of_get? hn]
  rfl

theorem timeWastingOperations_ok (th : Thresholds) (hstart : t.contains start) :
    ∃ operations, timeWastingOperations th t start = .ok operations ∧
      ∀ a ∈ operations, a.Gathers t (timedCalls t start) := by
  refine ⟨_, timeWastingOperations_eq th hstart, ?_⟩
  intro a ha
  have hranked : a ∈ ranked t start := (leading_sublist _ _ _ _).subset ha
  exact Aggregate.gathers_of_mem_grouped (List.mem_mergeSort.mp hranked)

end SlowRequest
