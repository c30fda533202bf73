import SlowRequest.Desktop
import SlowRequest.Proofs.Diagnosis.Causes
import SlowRequest.Proofs.Engine.Derivation
/-!
# The cause of a lone statement

A statement that is a problem context of its own is queued behind the statements that its caller
repeats. The greedy pass or the run above the lower bound may end before it is reached: it belongs
to its cause exactly if one of the two gets that far.
-/
namespace SlowRequest

private theorem lt_length_takeWhile_iff {α : Type} {p : α → Bool} {l : List α} {i : Nat}
    (hi : i < l.length) : i < (l.takeWhile p).length ↔ ∀ x ∈ l.take (i + 1), p x = true := by
  induction l generalizing i with
  | nil => cases hi
  | cons a l ih =>
    rw [List.takeWhile_cons, List.take_succ_cons, List.forall_mem_cons]
    by_cases ha : p a = true
    · rw [if_pos ha, List.length_cons]
      cases i with
      | zero => simp [ha]
      | succ i => simp only [ha, true_and, Nat.succ_lt_succ_iff, ih (Nat.lt_of_succ_lt_succ hi)]
    · simp [ha]

namespace Attribution

/-- A candidate is among the first `k`, or all from there up to it are above the lower bound. -/
def Reaches (t : CallTree) (sigmaFactor : Float) (candidates : List NodeId) (k : Nat)
    (id : NodeId) : Prop :=
  candidates.idxOf id < k ∨ 1 < k ∧ ∀ x ∈ (candidates.take (candidates.idxOf id + 1)).drop k,
    ¬ t.exclusiveTime x ≤ lower sigmaFactor ((candidates.take k).map t.exclusiveTime)

variable {t : CallTree} {sigmaFactor : Float} {candidates : List NodeId} {id : NodeId} {k : Nat}

private theorem le_length_of_isLeast {limit : Float} {times : List Float} (hne : times ≠ [])
    (hk : IsLeast {k | Suffices limit times k} k) : k ≤ times.length :=
  hk.2 ⟨List.length_pos_iff.mpr hne, .inl rfl⟩

private theorem mem_share_iff (hk : k ≤ candidates.length) (hid : id ∈ candidates) :
    id ∈ share t sigmaFactor candidates k ↔ Reaches t sigmaFactor candidates k id := by
  have hlt : candidates.idxOf id < candidates.length := List.idxOf_lt_length_of_mem hid
  rw [List.prefix_iff_eq_take.mp (share_leads t sigmaFactor candidates k),
    List.mem_take_iff_idxOf_lt hid, share, List.length_append, List.length_take_of_le hk, Reaches]
  by_cases hfirst : candidates.idxOf id < k
  · simp only [hfirst, true_or, iff_true]
    exact Nat.lt_add_right _ hfirst
  · obtain ⟨i, hi⟩ := Nat.exists_eq_add_of_le (Nat.le_of_not_lt hfirst)
    have hleft : i < (candidates.drop k).length := by
      rw [List.length_drop]
      omega
    have hmore : k < candidates.length := by omega
    rw [hi, Nat.add_assoc, ← List.take_drop]
    by_cases hseveral : 1 < k
    · rw [if_pos ⟨hseveral, hmore⟩, Nat.add_lt_add_iff_left, runAbove,
        lt_length_takeWhile_iff hleft]
      simp [hseveral]
    · rw [if_neg fun h => hseveral h.1]
      simp [hseveral]

private theorem share_ahead_of_not_mem (hid : id ∈ candidates)
    (h : id ∉ share t sigmaFactor candidates k) :
    share t sigmaFactor candidates k <+: candidates.take (candidates.idxOf id) := by
  have heq := List.prefix_iff_eq_take.mp (share_leads t sigmaFactor candidates k)
  rw [heq, List.mem_take_iff_idxOf_lt hid, Nat.not_lt] at h
  rw [heq]
  exact List.take_prefix_take_left h

end Attribution

namespace NPlusOne

variable {t : CallTree} {q : NodeId}

/-- Where the statements queued ahead of a lone call are looked for: at its caller, if it has
one. -/
def searched (t : CallTree) (q : NodeId) : NodeId := (t.parent? q).getD q

/-- The candidates for the cause of a lone call. It comes last unless it is repeated itself. -/
def queue (t : CallTree) (minCalls : Nat) (q : NodeId) : List NodeId :=
  if q ∈ t.repeatedCalls minCalls (searched t q) then t.repeatedCalls minCalls (searched t q)
  else t.repeatedCalls minCalls (searched t q) ++ [q]

theorem mem_queue (t : CallTree) (minCalls : Nat) (q : NodeId) : q ∈ queue t minCalls q := by
  rw [queue]
  split
  · assumption
  · exact List.mem_append_right _ (List.mem_singleton_self q)

private theorem contains_searched (hq : t.contains q) : t.contains (searched t q) := by
  rw [searched]
  cases hparent : t.parent? q with
  | none => exact hq
  | some p => exact (CallTree.encloses_of_parent? hparent).contains hq

theorem repeated_or_eq_of_mem_queue {minCalls : Nat} {id : NodeId}
    (hid : id ∈ queue t minCalls q) : id ∈ t.repeatedCalls minCalls (searched t q) ∨ id = q := by
  rw [queue] at hid
  split at hid
  · exact .inl hid
  · exact (List.mem_append.mp hid).imp_right List.mem_singleton.mp

private theorem timed_of_mem_queue {minCalls : Nat} {id : NodeId} (hq : t.Timed q)
    (hid : id ∈ queue t minCalls q) : t.Timed id := by
  rcases repeated_or_eq_of_mem_queue hid with hid | rfl
  · exact timed_of_repeats (mem_repeatedCalls.mp hid)
  · exact hq

theorem scope_lone (exclusive : Float) (hq : t.contains q) :
    scope t ⟨[q], q, exclusive⟩ = .ok (searched t q) := by
  obtain ⟨n, hn⟩ := CallTree.exists_get? hq
  have hparent : t.parent? q = n.parent := by
    rw [CallTree.parent?, Arena.parentOf, show t.nodes[q.index]? = some n from hn]
    rfl
  rw [scope, if_pos rfl, CallTree.diagnosedNode_of_get? hn, searched, hparent]
  rfl

theorem candidates_lone (th : Thresholds) (exclusive : Float) (hq : t.contains q) :
    candidates th t (searched t q) ⟨[q], q, exclusive⟩ =
      .ok (queue t th.minCallsNPlusOne q) := by
  rw [candidates_eq th _ (contains_searched hq), queue, appendMissing, appendMissing]
  simp only [List.contains_iff_mem]
  cases hcalls : t.repeatedCalls th.minCallsNPlusOne (searched t q) with
  | nil => rfl
  | cons first rest => rfl

private theorem rootCause_lone (th : Thresholds) (exclusive : Float) (hq : t.contains q) :
    rootCause th t ⟨[q], q, exclusive⟩ =
      Attribution.cause th t (queue t th.minCallsNPlusOne q) (t.duration (searched t q)) := by
  obtain ⟨n, hn⟩ := CallTree.exists_get? (contains_searched hq)
  rw [rootCause, scope_lone exclusive hq]
  simp only [bind, Except.bind, candidates_lone th exclusive hq,
    CallTree.diagnosedNode_of_get? hn, CallTree.duration_of_get? hn]

/-- A lone statement belongs to its cause exactly if the greedy pass takes it or the run after
the pass gets as far. Otherwise the pass has explained the limit with calls queued ahead of it,
and the cause consists of such calls. -/
theorem lone_mem_rootCause_iff (th : Thresholds) (t : CallTree) (q : NodeId) (exclusive : Float)
    (hq : (t.get? q).any Node.hasSql = true) :
    ∃ found k, rootCause th t ⟨[q], q, exclusive⟩ = .ok found ∧
      IsLeast {k | Attribution.Suffices (th.proportion * t.duration (searched t q))
        ((queue t th.minCallsNPlusOne q).map t.exclusiveTime) k} k ∧
      (q ∈ found.members.toList ↔
        Attribution.Reaches t th.sigmaFactor (queue t th.minCallsNPlusOne q) k q) ∧
      (q ∉ found.members.toList →
        found.members.toList <+:
            (queue t th.minCallsNPlusOne q).take ((queue t th.minCallsNPlusOne q).idxOf q) ∧
          ¬ leftSum (((queue t th.minCallsNPlusOne q).take k).map t.exclusiveTime)
            < th.proportion * t.duration (searched t q)) := by
  have htimed : t.Timed q := CallTree.timed_of_hasSql hq
  have hmem : q ∈ queue t th.minCallsNPlusOne q := mem_queue t th.minCallsNPlusOne q
  obtain ⟨key, k, -, hleast, hcause⟩ := Attribution.cause_eq_ofCalls th
    (t.duration (searched t q)) (List.ne_nil_of_mem hmem) fun id => timed_of_mem_queue htimed
  rw [← rootCause_lone th exclusive htimed.contains] at hcause
  generalize queue t th.minCallsNPlusOne q = candidates at hmem hleast hcause ⊢
  have hk : k ≤ candidates.length := by
    have hle := Attribution.le_length_of_isLeast
      (List.ne_nil_of_mem (List.mem_map_of_mem hmem)) hleast
    rwa [List.length_map] at hle
  refine ⟨_, k, hcause, hleast, Attribution.mem_share_iff hk hmem, ?_⟩
  intro hout
  refine ⟨Attribution.share_ahead_of_not_mem hmem hout, ?_⟩
  rcases hleast.1.2 with hall | hexplained
  · rw [List.length_map] at hall
    have hreached := List.idxOf_lt_length_of_mem hmem
    rw [← hall] at hreached
    exact absurd ((Attribution.mem_share_iff hk hmem).mpr (.inl hreached)) hout
  · rwa [← List.map_take] at hexplained

def queryCall (statement : String) (duration : Float) : Call :=
  { Call.timed 2 duration duration with
    measurement := .sql ⟨duration, some duration, 0.0, 1⟩ statement }

def crowdedCalls : CallTree.Builder :=
  CallTree.Builder.grow (.ofRoot (Call.timed 1 1000.0 400.0))
    ((0, { Call.timed 3 400.0 0.0 with measurement := .none }) ::
      List.replicate 11 (1, queryCall "SELECT 1" 30.0) ++ [(1, queryCall "SELECT 2" 25.0)])

/-- A statement after eleven calls of another one that are all slower. -/
def crowded : CallTree where
  nodes := crowdedCalls.nodes
  consistent := crowdedCalls.consistent
  nonempty := by decide +kernel

theorem lone_mem_rootCause_iff_crowded :
    (crowded.get? ⟨13⟩).any Node.hasSql = true ∧
      ∃ found k, rootCause .default crowded ⟨[⟨13⟩], ⟨13⟩, 25.0⟩ = .ok found ∧
        IsLeast {k | Attribution.Suffices
          (Thresholds.default.proportion * crowded.duration (searched crowded ⟨13⟩))
          ((queue crowded Thresholds.default.minCallsNPlusOne ⟨13⟩).map crowded.exclusiveTime) k}
          k ∧
        (⟨13⟩ ∈ found.members.toList ↔ Attribution.Reaches crowded Thresholds.default.sigmaFactor
          (queue crowded Thresholds.default.minCallsNPlusOne ⟨13⟩) k ⟨13⟩) ∧
        (⟨13⟩ ∉ found.members.toList →
          found.members.toList <+: (queue crowded Thresholds.default.minCallsNPlusOne ⟨13⟩).take
              ((queue crowded Thresholds.default.minCallsNPlusOne ⟨13⟩).idxOf ⟨13⟩) ∧
            ¬ leftSum (((queue crowded Thresholds.default.minCallsNPlusOne ⟨13⟩).take k).map
                crowded.exclusiveTime)
              < Thresholds.default.proportion * crowded.duration (searched crowded ⟨13⟩)) := by
  have hq : (crowded.get? ⟨13⟩).any Node.hasSql = true := by decide +kernel
  exact ⟨hq, lone_mem_rootCause_iff .default crowded ⟨13⟩ 25.0 hq⟩

open Desktop in
private theorem ranked_crowded :
    ranked crowded ⟨0⟩ = Aggregate.grouped crowded (timedCalls crowded ⟨0⟩) := by
  -- A sort does not evaluate, but the operations are met in the order of their times.
  apply List.mergeSort_of_pairwise
  decide +kernel

open Desktop in
/-- The last statement wastes time in the request, and its cause is the eleven others. -/
theorem crowded_rootCause_without_lone :
    (crowded.get? ⟨13⟩).any Node.hasSql = true ∧
      (∃ operations, timeWastingOperations .default crowded ⟨0⟩ = .ok operations ∧
        ∃ a ∈ operations, a.members.toList = [⟨13⟩]) ∧
      ∃ found, rootCause .default crowded ⟨[⟨13⟩], ⟨13⟩, 25.0⟩ = .ok found ∧
        found.members.toList = (List.range 11).map (⟨· + 2⟩) ∧ ⟨13⟩ ∉ found.members.toList := by
  have hrun : ((rootCause .default crowded ⟨[⟨13⟩], ⟨13⟩, 25.0⟩).toOption.map
      fun found => found.members.toList) = some ((List.range 11).map (⟨· + 2⟩)) := by
    decide +kernel
  obtain ⟨found, hfound, hmembers⟩ := Option.map_eq_some_iff.mp hrun
  refine ⟨by decide +kernel, ?_, found, Except.eq_ok_of_toOption hfound, hmembers, ?_⟩
  · refine ⟨_, timeWastingOperations_eq .default (by decide +kernel), ?_⟩
    rw [ranked_crowded]
    decide +kernel
  · rw [hmembers]
    decide

end NPlusOne
end SlowRequest
