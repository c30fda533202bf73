import SlowRequest.Results.Listener
import Mathlib.Data.List.DropRight
import Mathlib.Data.List.Nodup
namespace SlowRequest

variable {o : Occurrence} {os : List Occurrence}

theorem rtake_rtake_append {α : Type} (l m : List α) (n : Nat) :
    (l.rtake n ++ m).rtake n = (l ++ m).rtake n := by
  rw [List.rtake, List.rtake, List.rtake]
  rcases Nat.le_total n l.length with hle | hle
  · have hlength : (l.drop (l.length - n) ++ m).length - n = m.length := by
      rw [List.length_append, List.length_drop]
      omega
    rw [hlength, ← List.drop_append_of_le_length (by omega), List.drop_drop, List.length_append]
    congr 1
    omega
  · rw [Nat.sub_eq_zero_of_le hle, List.drop_zero]

namespace OccurrenceStore

@[simp] theorem capacity_insert (s : OccurrenceStore) (o : Occurrence) :
    (s.insert o).capacity = s.capacity := rfl

@[simp] theorem capacity_new (capacity : Nat) : (new capacity).capacity = max capacity 1 := rfl

@[simp] theorem occurrences_new (capacity : Nat) : (new capacity).occurrences = [] := rfl

theorem occurrences_insert (s : OccurrenceStore) (o : Occurrence) :
    (s.insert o).occurrences = (s.occurrences ++ [o]).rtake s.capacity := by
  have hpos := s.capacity_pos
  have hle := s.length_le
  change s.kept ++ [o] = _
  rw [kept, isFull, size, List.rtake, List.length_append, List.length_singleton]
  by_cases hfull : s.occurrences.length = s.capacity
  · have hone : s.occurrences.length + 1 - s.capacity = 1 := by omega
    rw [if_pos (beq_iff_eq.mpr hfull), hone, List.drop_append_of_le_length (by omega),
      List.drop_one]
  · have hnone : s.occurrences.length + 1 - s.capacity = 0 := by omega
    rw [if_neg (fun h => hfull (beq_iff_eq.mp h)), hnone, List.drop_zero]

theorem occurrences_foldl_insert (s : OccurrenceStore) (os : List Occurrence) :
    (os.foldl insert s).occurrences = (s.occurrences ++ os).rtake s.capacity := by
  induction os generalizing s with
  | nil =>
    have hle := s.length_le
    rw [List.foldl_nil, List.append_nil, List.rtake, Nat.sub_eq_zero_of_le hle, List.drop_zero]
  | cons o os ih =>
    rw [List.foldl_cons, ih, capacity_insert, occurrences_insert, rtake_rtake_append,
      List.append_assoc, List.singleton_append]

end OccurrenceStore

namespace RootIndex

def roots (x : RootIndex) : List UInt64 := x.entries.map Prod.fst

theorem roots_insert (x : RootIndex) (o : Occurrence) :
    (x.insert o).roots =
      if o.requestRoot.invocationId ∈ x.roots then x.roots
      else x.roots ++ [o.requestRoot.invocationId] := by
  rw [insert, get?]
  cases hfound : x.entries.lookup o.requestRoot.invocationId with
  | some id =>
    obtain ⟨before, after, hsplit, -⟩ := List.lookup_eq_some_iff.mp hfound
    have hmem : o.requestRoot.invocationId ∈ x.roots := by simp [roots, hsplit]
    rw [if_pos hmem]
  | none =>
    have hmem : o.requestRoot.invocationId ∉ x.roots := by
      intro hmem
      obtain ⟨p, hp, heq⟩ := List.mem_map.mp hmem
      have hne := List.lookup_eq_none_iff.mp hfound p hp
      simp [heq] at hne
    rw [if_neg hmem, roots, List.map_append]
    rfl

theorem mem_roots_foldl_insert {x : RootIndex} {invocation : UInt64} :
    invocation ∈ (os.foldl insert x).roots ↔
      invocation ∈ x.roots ∨ ∃ o ∈ os, o.requestRoot.invocationId = invocation := by
  induction os generalizing x with
  | nil => simp
  | cons o os ih =>
    rw [List.foldl_cons, ih, roots_insert, List.exists_mem_cons_iff, ← or_assoc]
    refine or_congr_left ?_
    split
    · rename_i hmem
      constructor
      · exact .inl
      · rintro (h | rfl)
        · exact h
        · exact hmem
    · rw [List.mem_append, List.mem_singleton, eq_comm]

theorem nodup_roots_foldl_insert {x : RootIndex} (h : x.roots.Nodup) :
    (os.foldl insert x).roots.Nodup := by
  induction os generalizing x with
  | nil => exact h
  | cons o os ih =>
    apply ih
    rw [roots_insert]
    split
    · exact h
    · rename_i hmem
      exact h.append (List.nodup_singleton _) (by simpa using hmem)

end RootIndex
end SlowRequest
