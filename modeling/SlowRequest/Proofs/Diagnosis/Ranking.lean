import Mathlib.Order.Bounds.Basic
import SlowRequest.Desktop
import SlowRequest.Proofs.Diagnosis.Firing
import SlowRequest.Proofs.TotalOrder
namespace SlowRequest

section Rank

variable [NaNSums]

namespace Aggregate

theorem rank_lt_of_lt {a b : Aggregate} (h : a.exclusiveTime < b.exclusiveTime) :
    a.rank < b.rank := by
  obtain ⟨ha, hb⟩ := isNaN_of_lt h
  simp only [rank, ha, hb, Bool.false_eq_true, if_false]
  exact totalOrderKey_lt_of_lt h

end Aggregate

/-- The groups from the highest rank to the lowest; those of one rank stay in their order. -/
structure IsRanking (groups ranking : List Aggregate) : Prop where
  perm : ranking.Perm groups
  falling : ranking.Pairwise fun a b => b.rank ≤ a.rank
  stable : ∀ r, (ranking.filter fun a => a.rank == r) = groups.filter fun a => a.rank == r

theorem isRanking_mergeSort (groups : List Aggregate) :
    IsRanking groups (groups.mergeSort fun a b => decide (b.rank ≤ a.rank)) := by
  have htrans : ∀ a b c : Aggregate, decide (b.rank ≤ a.rank) = true →
      decide (c.rank ≤ b.rank) = true → decide (c.rank ≤ a.rank) = true := by
    intro a b c hab hbc
    simp only [decide_eq_true_eq] at *
    exact hbc.trans hab
  have htotal : ∀ a b : Aggregate,
      (decide (b.rank ≤ a.rank) || decide (a.rank ≤ b.rank)) = true := by
    intro a b
    simp only [Bool.or_eq_true, decide_eq_true_eq]
    exact Int.le_total _ _
  have hperm := List.mergeSort_perm groups fun a b => decide (b.rank ≤ a.rank)
  refine ⟨hperm, ?_, ?_⟩
  · exact (List.pairwise_mergeSort htrans htotal groups).imp of_decide_eq_true
  · intro r
    have hlevel : (groups.filter fun a => a.rank == r).Pairwise fun a b =>
        decide (b.rank ≤ a.rank) = true := by
      apply List.pairwise_of_forall_mem_list
      intro a ha b hb
      rw [decide_eq_true_eq, eq_of_beq (List.mem_filter.mp ha).2,
        eq_of_beq (List.mem_filter.mp hb).2]
    have hsub := (List.sublist_mergeSort htrans htotal hlevel List.filter_sublist).filter
      fun a => a.rank == r
    simp only [List.filter_filter, Bool.and_self] at hsub
    exact (hsub.eq_of_length (hperm.filter _).length_eq.symm).symm

theorem IsRanking.not_lt {groups ranking : List Aggregate} (h : IsRanking groups ranking) :
    ranking.Pairwise fun a b => ¬ a.exclusiveTime < b.exclusiveTime :=
  h.falling.imp fun hle hlt => Int.not_lt.mpr hle (Aggregate.rank_lt_of_lt hlt)

end Rank

variable {t : CallTree} {context id : NodeId}

namespace TimeWastingOperations

/-- So many leading operations are all, or explain the limit while the next one has few calls. -/
def Covers (limit : Float) (minCalls : Nat) (ranking : List Aggregate) (k : Nat) : Prop :=
  k = ranking.length ∨ ∃ next, ranking[k]? = some next ∧
    limit ≤ leftSum ((ranking.take k).map Aggregate.exclusiveTime) ∧ next.size ≤ minCalls

private theorem covers_length_iff {limit : Float} {minCalls : Nat} {taken rest : List Aggregate}
    {next : Aggregate} :
    Covers limit minCalls (taken ++ next :: rest) taken.length ↔
      limit ≤ leftSum (taken.map Aggregate.exclusiveTime) ∧ next.size ≤ minCalls := by
  simp [Covers]

private theorem leading_after (limit : Float) (minCalls : Nat) (taken rest : List Aggregate) :
    ∃ k, leading limit minCalls (leftSum (taken.map Aggregate.exclusiveTime)) rest = rest.take k ∧
      IsLeast {n | taken.length ≤ n ∧ Covers limit minCalls (taken ++ rest) n}
        (taken.length + k) := by
  induction rest generalizing taken with
  | nil =>
    refine ⟨0, rfl, ⟨Nat.le_refl _, .inl ?_⟩, fun n hn => hn.1⟩
    rw [List.append_nil, Nat.add_zero]
  | cons a rest ih =>
    by_cases hstop : limit ≤ leftSum (taken.map Aggregate.exclusiveTime) ∧ a.size ≤ minCalls
    · refine ⟨0, ?_, ⟨Nat.le_refl _, covers_length_iff.mpr hstop⟩, fun n hn => hn.1⟩
      rw [leading, if_pos hstop, List.take_zero]
    · obtain ⟨k, hleading, ⟨-, hcovers⟩, hleast⟩ := ih (taken ++ [a])
      rw [List.map_append, List.map_singleton, leftSum_concat] at hleading
      simp only [List.length_append, List.length_singleton, List.append_assoc,
        List.singleton_append] at hcovers hleast
      have hshift : taken.length + 1 + k = taken.length + (k + 1) := by omega
      rw [hshift] at hcovers hleast
      refine ⟨k + 1, ?_, ⟨Nat.le_add_right _ _, hcovers⟩, ?_⟩
      · rw [leading, if_neg hstop, hleading, List.take_succ_cons]
      · intro n hn
        rcases Nat.eq_or_lt_of_le hn.1 with rfl | hlt
        · exact absurd (covers_length_iff.mp hn.2) hstop
        · exact hleast ⟨hlt, hn.2⟩

theorem leading_eq_take (limit : Float) (minCalls : Nat) (ranking : List Aggregate) :
    ∃ k, leading limit minCalls 0.0 ranking = ranking.take k ∧
      IsLeast {k | Covers limit minCalls ranking k} k := by
  obtain ⟨k, hleading, hleast⟩ := leading_after limit minCalls [] ranking
  refine ⟨k, hleading, ?_⟩
  simpa using hleast

end TimeWastingOperations
end SlowRequest
