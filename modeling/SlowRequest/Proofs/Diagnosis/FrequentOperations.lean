import Mathlib.Data.List.Nodup
import SlowRequest.Proofs.Diagnosis.Ranking
/-!
# Operations of many calls

An operation of many calls never ends the walk down the ranking, but the walk does not go back for
it either. It is taken exactly if no operation of few calls comes before it at which the limit is
already explained.
-/
namespace SlowRequest

private theorem mem_take_iff_lt {α : Type} {l : List α} {i k : Nat} {a : α} (hl : l.Nodup)
    (hi : l[i]? = some a) : a ∈ l.take k ↔ i < k := by
  obtain ⟨hlt, rfl⟩ := List.getElem?_eq_some_iff.mp hi
  rw [List.mem_take_iff_getElem]
  constructor
  · rintro ⟨j, hj, heq⟩
    have hji : j = i := hl.getElem_inj_iff.mp heq
    omega
  · intro hik
    exact ⟨i, by omega, rfl⟩

namespace Aggregate

theorem nodup_grouped (t : CallTree) (ids : List NodeId) : (grouped t ids).Nodup :=
  (t.nodup_operations ids).map_on fun _ _ _ _ heq => congrArg key heq

end Aggregate

namespace TimeWastingOperations

/-- The walk ends at a place: what comes before explains the limit, and there are few calls. -/
def Ends (limit : Float) (minCalls : Nat) (ranking : List Aggregate) (j : Nat) : Prop :=
  ∃ next, ranking[j]? = some next ∧
    limit ≤ leftSum ((ranking.take j).map Aggregate.exclusiveTime) ∧ next.size ≤ minCalls

variable {limit : Float} {minCalls : Nat} {ranking : List Aggregate} {a : Aggregate} {i k : Nat}

private theorem covers_iff_ends : Covers limit minCalls ranking k ↔
    k = ranking.length ∨ Ends limit minCalls ranking k := Iff.rfl

private theorem ends_of_le (hk : Covers limit minCalls ranking k) (hi : ranking[i]? = some a)
    (hki : k ≤ i) : Ends limit minCalls ranking k := by
  obtain ⟨hlt, -⟩ := List.getElem?_eq_some_iff.mp hi
  refine (covers_iff_ends.mp hk).resolve_left ?_
  omega

private theorem not_ends_of_frequent (hi : ranking[i]? = some a) (hfrequent : minCalls < a.size) :
    ¬ Ends limit minCalls ranking i := by
  rintro ⟨next, hnext, -, hfew⟩
  rw [hi] at hnext
  cases hnext
  omega

private theorem lt_iff_forall_not_ends (hk : IsLeast {k | Covers limit minCalls ranking k} k)
    (hi : ranking[i]? = some a) (hfrequent : minCalls < a.size) :
    i < k ↔ ∀ j < i, ¬ Ends limit minCalls ranking j := by
  constructor
  · intro hik j hj hends
    have hkj : k ≤ j := hk.2 (covers_iff_ends.mpr (.inr hends))
    omega
  · intro hnone
    by_contra hki
    -- The walk has ended at `k`, which is not `i`: there it would meet too many calls to end.
    have hends := ends_of_le hk.1 hi (Nat.le_of_not_lt hki)
    rcases Nat.eq_or_lt_of_le (Nat.le_of_not_lt hki) with rfl | hlt
    · exact not_ends_of_frequent hi hfrequent hends
    · exact hnone k hlt hends

/-- An operation of many calls below the global context is an output exactly if the walk down the
ranking ends nowhere before it. If it is none, the outputs explain the limit without it. -/
theorem frequent_mem_action_iff [NaNSums] (th : Thresholds) {b : Binding Finding} {t : CallTree}
    {context : NodeId} (hroot : b.root = .request t)
    (hcontext : b.get? Tag.globalContext = some (.node context)) (hcall : t.contains context) :
    ∃ ranking taken : List Aggregate,
      IsRanking (Aggregate.grouped t (timedCalls t context)) ranking ∧
      (timeWastingOperationsRule th).action b = .ok (.multiple (taken.map .aggregate)) ∧
      ∀ a ∈ Aggregate.grouped t (timedCalls t context), th.minCallsTimeWasting < a.size →
        ∃ i, ranking[i]? = some a ∧
          (a ∈ taken ↔ ∀ j < i, ¬ Ends (th.proportion * t.duration context)
            th.minCallsTimeWasting ranking j) ∧
          (a ∉ taken →
            th.proportion * t.duration context ≤ leftSum (taken.map Aggregate.exclusiveTime)) := by
  have hranking := isRanking_mergeSort (Aggregate.grouped t (timedCalls t context))
  have hnodup : (ranked t context).Nodup :=
    hranking.perm.nodup_iff.mpr (Aggregate.nodup_grouped t _)
  obtain ⟨k, hleading, hleast⟩ := leading_eq_take (th.proportion * t.duration context)
    th.minCallsTimeWasting (ranked t context)
  refine ⟨ranked t context, (ranked t context).take k, hranking,
    action_of_operations hroot hcontext ?_, ?_⟩
  · rw [timeWastingOperations_eq th hcall, hleading]
  · intro a ha hfrequent
    obtain ⟨i, hi⟩ := List.mem_iff_getElem?.mp (hranking.perm.mem_iff.mpr ha)
    refine ⟨i, hi, ?_, ?_⟩
    · rw [mem_take_iff_lt hnodup hi]
      exact lt_iff_forall_not_ends hleast hi hfrequent
    · intro hout
      rw [mem_take_iff_lt hnodup hi, Nat.not_lt] at hout
      obtain ⟨-, -, hexplained, -⟩ := ends_of_le hleast.1 hi hout
      exact hexplained

def drownedCalls : CallTree.Builder :=
  CallTree.Builder.grow (.ofRoot (Call.timed 1 1000.0 900.0))
    ((0, Call.timed 3 50.0 50.0) ::
      List.replicate 21 (0, Call.timed 4 1.0 1.0))

/-- A method called many times but for less time than another one that is called once. -/
def drowned : CallTree where
  nodes := drownedCalls.nodes
  consistent := drownedCalls.consistent
  nonempty := by decide +kernel

def drownedBinding : Binding Finding :=
  ⟨.request drowned, [(Tag.globalContext, some (.node ⟨0⟩))], baselineOnly 500.0⟩

open Desktop in
theorem frequent_mem_action_iff_drowned :
    drownedBinding.root = .request drowned ∧
      drownedBinding.get? Tag.globalContext = some (.node ⟨0⟩) ∧ drowned.contains ⟨0⟩ ∧
      ∃ ranking taken : List Aggregate,
        IsRanking (Aggregate.grouped drowned (timedCalls drowned ⟨0⟩)) ranking ∧
        (timeWastingOperationsRule .default).action drownedBinding =
          .ok (.multiple (taken.map .aggregate)) ∧
        ∀ a ∈ Aggregate.grouped drowned (timedCalls drowned ⟨0⟩),
          Thresholds.default.minCallsTimeWasting < a.size →
          ∃ i, ranking[i]? = some a ∧
            (a ∈ taken ↔ ∀ j < i, ¬ Ends (Thresholds.default.proportion * drowned.duration ⟨0⟩)
              Thresholds.default.minCallsTimeWasting ranking j) ∧
            (a ∉ taken → Thresholds.default.proportion * drowned.duration ⟨0⟩
              ≤ leftSum (taken.map Aggregate.exclusiveTime)) := by
  have hcontext : drownedBinding.get? Tag.globalContext = some (.node ⟨0⟩) := Binding.get?_here
  have hcall : drowned.contains ⟨0⟩ := by decide +kernel
  exact ⟨rfl, hcontext, hcall, frequent_mem_action_iff .default rfl hcontext hcall⟩

open Desktop in
private theorem ranked_drowned :
    ranked drowned ⟨0⟩ = Aggregate.grouped drowned (timedCalls drowned ⟨0⟩) := by
  -- A sort does not evaluate, but the operations are met in the order of their times.
  apply List.mergeSort_of_pairwise
  decide +kernel

open Desktop in
/-- The root alone explains the limit, and the next operation has one call: the walk ends there,
with more than twenty calls of another operation behind. -/
theorem drowned_action_without_frequent :
    (∃ a ∈ Aggregate.grouped drowned (timedCalls drowned ⟨0⟩),
        a.key = ⟨4, none, none⟩ ∧ Thresholds.default.minCallsTimeWasting < a.size) ∧
      ∃ taken : List Aggregate, (timeWastingOperationsRule .default).action drownedBinding =
          .ok (.multiple (taken.map .aggregate)) ∧
        ∀ found ∈ taken, found.key ≠ ⟨4, none, none⟩ := by
  refine ⟨by decide +kernel, _, action_of_operations rfl Binding.get?_here
    (timeWastingOperations_eq .default (by decide +kernel)), ?_⟩
  rw [ranked_drowned]
  decide +kernel

end TimeWastingOperations
end SlowRequest
