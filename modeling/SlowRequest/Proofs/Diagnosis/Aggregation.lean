import SlowRequest.Aggregate
namespace SlowRequest

variable {t : CallTree} {id : NodeId} {n : Node} {groups : List Aggregate} {slot : Nat}

private theorem modify_length_concat {α : Type} (l : List α) (a : α) (f : α → α) :
    (l ++ [a]).modify l.length f = l ++ [f a] := by
  induction l with
  | nil => rfl
  | cons b l ih =>
    rw [List.cons_append, List.length_cons, List.modify_succ_cons, ih, List.cons_append]

namespace Aggregate

def insert (id : NodeId) (n : Node) : List Aggregate → List Aggregate
  | [] => [ofNode id n]
  | a :: rest => if a.key = .of n then a.push id n :: rest else a :: insert id n rest

def collect (t : CallTree) : List NodeId → List Aggregate → Except TreeError (List Aggregate)
  | [], groups => .ok groups
  | id :: ids, groups => do
    let n ← t.node id
    collect t ids (insert id n groups)

private theorem insert_of_known (h : (groups.map key).idxOf? (.of n) = some slot) :
    insert id n groups = groups.modify slot (·.push id n) := by
  induction groups generalizing slot with
  | nil => cases h
  | cons a groups ih =>
    rw [List.map_cons, List.idxOf?_cons] at h
    rw [insert]
    by_cases hkey : a.key = .of n
    · rw [if_pos (beq_iff_eq.mpr hkey)] at h
      cases h
      rw [if_pos hkey]
      rfl
    · rw [if_neg (fun heq => hkey (beq_iff_eq.mp heq))] at h
      obtain ⟨next, hnext, rfl⟩ := Option.map_eq_some_iff.mp h
      rw [if_neg hkey, ih hnext]
      rfl

private theorem insert_of_new (h : (groups.map key).idxOf? (.of n) = none) :
    insert id n groups = groups ++ [ofNode id n] := by
  induction groups with
  | nil => rfl
  | cons a groups ih =>
    rw [List.idxOf?_eq_none_iff, List.map_cons, List.mem_cons, not_or] at h
    rw [insert, if_neg (Ne.symm h.1), ih (List.idxOf?_eq_none_iff.mpr h.2), List.cons_append]

end Aggregate

namespace Aggregator

private theorem aggregates_put (g : Aggregator) (id : NodeId) (n : Node) :
    (g.put id n).aggregates = Aggregate.insert id n g.aggregates := by
  rw [put]
  split
  · rename_i slot hslot
    rw [g.indexed] at hslot
    exact (Aggregate.insert_of_known hslot).symm
  · rename_i hnew
    rw [g.indexed] at hnew
    rw [Aggregate.insert_of_new hnew]
    exact modify_length_concat g.aggregates (.empty (.of n)) _

private theorem aggregates_foldlM_add (ids : List NodeId) (g : Aggregator) :
    (ids.foldlM (add t) g).map aggregates = Aggregate.collect t ids g.aggregates := by
  induction ids generalizing g with
  | nil => rfl
  | cons id ids ih =>
    rw [List.foldlM_cons, add, Aggregate.collect]
    cases t.node id with
    | error e => rfl
    | ok n =>
      change _ = Aggregate.collect t ids (Aggregate.insert id n g.aggregates)
      rw [← aggregates_put]
      exact ih (g.put id n)

end Aggregator

theorem Aggregate.group_eq_collect (t : CallTree) (ids : List NodeId) :
    group t ids = collect t ids [] := by
  rw [group, show ([] : List Aggregate) = Aggregator.empty.aggregates from rfl,
    ← Aggregator.aggregates_foldlM_add]
  rfl

end SlowRequest
