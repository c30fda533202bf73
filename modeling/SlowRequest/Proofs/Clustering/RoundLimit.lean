import SlowRequest.Proofs.Clustering.Blocks
/-!
# The limit on merge rounds

A merge round leaves fewer parts or finds nothing to join. A clustering of `n` calls is therefore
over after at most `n - 1` merge rounds, and a limit of at least as many never shows in its result.
-/
namespace SlowRequest

namespace Clustering

variable {t : CallTree} {start : NodeId} {sig : Float} {parts merged : List Part}

/-- A clustering ends with `parts` on its own: one of them is significant, or none can be joined. -/
def Final (t : CallTree) (start : NodeId) (sig : Float) (parts : List Part) : Prop :=
  significant? sig parts ≠ none ∨ Part.mergeClosest t (t.depthFirst start) parts = .ok none

theorem mergeClosest_shrinks (t : CallTree) (start : NodeId) (parts : List Part) :
    Part.mergeClosest t (t.depthFirst start) parts = .ok none ∨
      ∃ merged, Part.mergeClosest t (t.depthFirst start) parts = .ok (some merged) ∧
        merged ≠ [] ∧ merged.length < parts.length := by
  rcases Part.mergeClosest_eq t start parts with ⟨hnone, -⟩ | ⟨merged, hmerged, hmerges⟩
  · exact .inl hnone
  · exact .inr ⟨merged, hmerged, hmerges.ne_nil, hmerges.length_lt⟩

private theorem final_or_merges (t : CallTree) (start : NodeId) (sig : Float) (parts : List Part) :
    Final t start sig parts ∨
      ∃ merged, significant? sig parts = none ∧
        Part.mergeClosest t (t.depthFirst start) parts = .ok (some merged) ∧
        0 < merged.length ∧ merged.length < parts.length := by
  cases hs : significant? sig parts with
  | some p => exact .inl (.inl (by simp [hs]))
  | none =>
    rcases mergeClosest_shrinks t start parts with hnone | ⟨merged, hmerged, hne, hlt⟩
    · exact .inl (.inr hnone)
    · exact .inr ⟨merged, rfl, hmerged, List.length_pos_of_ne_nil hne, hlt⟩

private theorem rounds_of_final (h : Final t start sig parts) (n : Nat) :
    rounds t (t.depthFirst start) sig n parts = [parts] := by
  cases n with
  | zero => rfl
  | succ n =>
    rw [rounds]
    rcases h with hs | hm
    · split
      · rename_i hnone _
        exact absurd hnone hs
      · rfl
    · rw [hm]
      cases significant? sig parts <;> rfl

private theorem rounds_of_merges (hs : significant? sig parts = none)
    (hm : Part.mergeClosest t (t.depthFirst start) parts = .ok (some merged)) (n : Nat) :
    rounds t (t.depthFirst start) sig (n + 1) parts =
      parts :: rounds t (t.depthFirst start) sig n merged := by
  rw [rounds, hs, hm]

/-- Whatever the limit, a clustering that ends on its own chooses among the parts it ends with. -/
theorem settle_of_final (h : Final t start sig parts) (n k : Nat) :
    (settle t (t.depthFirst start) sig n k parts).map Prod.fst =
      (choose sig parts).map Prod.fst := by
  cases n with
  | zero => rfl
  | succ n =>
    cases hs : significant? sig parts with
    | some p =>
      simp only [settle, choose, hs]
      rfl
    | none =>
      rcases h with h | hm
      · exact absurd hs h
      · simp only [settle, hs, hm]

private theorem settle_of_merges (hs : significant? sig parts = none)
    (hm : Part.mergeClosest t (t.depthFirst start) parts = .ok (some merged)) (n k : Nat) :
    settle t (t.depthFirst start) sig (n + 1) k parts =
      settle t (t.depthFirst start) sig n (k + 1) merged := by
  simp only [settle, hs, hm]

private theorem length_tail_rounds_le (t : CallTree) (start : NodeId) (sig : Float) (n : Nat)
    (parts : List Part) :
    (rounds t (t.depthFirst start) sig n parts).tail.length ≤ parts.length - 1 := by
  induction n generalizing parts with
  | zero => exact Nat.zero_le _
  | succ n ih =>
    rcases final_or_merges t start sig parts with hfinal | ⟨merged, hs, hm, hpos, hlt⟩
    · rw [rounds_of_final hfinal]
      exact Nat.zero_le _
    · have htail := ih merged
      rw [List.length_tail] at htail
      rw [rounds_of_merges hs hm, List.tail_cons]
      omega

/-- With so many rounds the limit is not what ends the clustering. -/
theorem final_of_getLast?_rounds {n : Nat} (hlen : parts.length ≤ n + 1) {last : List Part}
    (hlast : (rounds t (t.depthFirst start) sig n parts).getLast? = some last) :
    Final t start sig last := by
  induction n generalizing parts with
  | zero =>
    rcases final_or_merges t start sig parts with hfinal | ⟨merged, -, -, hpos, hlt⟩
    · cases hlast
      exact hfinal
    · omega
  | succ n ih =>
    rcases final_or_merges t start sig parts with hfinal | ⟨merged, hs, hm, hpos, hlt⟩
    · rw [rounds_of_final hfinal] at hlast
      cases hlast
      exact hfinal
    · obtain ⟨rest, hrest⟩ := rounds_eq_cons t (t.depthFirst start) sig n merged
      rw [rounds_of_merges hs hm, hrest, List.getLast?_cons_cons, ← hrest] at hlast
      exact ih (by omega) hlast

private theorem settle_eq_of_length_le {r s : Nat} (hr : parts.length ≤ r + 1)
    (hs : parts.length ≤ s + 1) (k k' : Nat) :
    (settle t (t.depthFirst start) sig r k parts).map Prod.fst =
      (settle t (t.depthFirst start) sig s k' parts).map Prod.fst := by
  induction r generalizing s k k' parts with
  | zero =>
    rcases final_or_merges t start sig parts with hfinal | ⟨merged, -, -, hpos, hlt⟩
    · rw [settle_of_final hfinal, settle_of_final hfinal]
    · omega
  | succ r ih =>
    rcases final_or_merges t start sig parts with hfinal | ⟨merged, hnone, hm, hpos, hlt⟩
    · rw [settle_of_final hfinal, settle_of_final hfinal]
    · obtain ⟨s, rfl⟩ : ∃ s', s = s' + 1 := ⟨s - 1, by omega⟩
      rw [settle_of_merges hnone hm, settle_of_merges hnone hm]
      exact ih (by omega) (by omega) _ _

private theorem length_of_singles {ids : List NodeId} (h : singles t ids = .ok parts) :
    parts.length = ids.length := by
  cases hfirst : t.untimed? ids with
  | some id =>
    rw [singles_of_untimed hfirst] at h
    cases h
  | none =>
    rw [singles_eq (CallTree.untimed?_eq_none.mp hfirst)] at h
    cases h
    rw [opening, List.length_map]

private theorem map_fst_run_eq (th : Thresholds) (t : CallTree) (start : NodeId)
    (operation : Aggregate) {r s : Nat}
    (hr : operation.members.toList.length ≤ r + 1)
    (hs : operation.members.toList.length ≤ s + 1) :
    (run { th with maxMergeRounds := r } t start operation).map Prod.fst =
      (run { th with maxMergeRounds := s } t start operation).map Prod.fst := by
  cases hsingles : singles t operation.members.toList with
  | error e =>
    simp only [run, hsingles]
    rfl
  | ok parts =>
    rw [← length_of_singles hsingles] at hr hs
    simp only [run, hsingles, bind, Except.bind]
    rcases parts with _ | ⟨p, _ | ⟨q, rest⟩⟩
    · rfl
    · rfl
    · exact settle_eq_of_length_le hr hs 0 0

private theorem cluster_eq_map_fst (th : Thresholds) (t : CallTree) (start : NodeId)
    (operation : Aggregate) :
    cluster th t start operation =
      ((run th t start operation).map Prod.fst).map fun p => p.toCluster := by
  rw [cluster]
  cases run th t start operation <;> rfl

/-- Every merge round leaves fewer parts or ends the clustering. Of `n` calls a clustering is over
after at most `n - 1` merge rounds, on its own if it may take so many, and all limits that allow so
many give the same result. -/
theorem cluster_ends_early (t : CallTree) (start : NodeId) :
    (∀ parts, Part.mergeClosest t (t.depthFirst start) parts = .ok none ∨
      ∃ merged, Part.mergeClosest t (t.depthFirst start) parts = .ok (some merged) ∧
        merged.length < parts.length) ∧
    ∀ (th : Thresholds) (operation : Aggregate),
      (history th t start operation).tail.length ≤ operation.size - 1 ∧
      (operation.size - 1 ≤ th.maxMergeRounds →
        ∀ last, (history th t start operation).getLast? = some last →
          Final t start (significance th t operation.members.toList) last) ∧
      ∀ r s, operation.size - 1 ≤ r → operation.size - 1 ≤ s →
        cluster { th with maxMergeRounds := r } t start operation =
          cluster { th with maxMergeRounds := s } t start operation := by
  constructor
  · intro parts
    rcases mergeClosest_shrinks t start parts with hnone | ⟨merged, hmerged, -, hlt⟩
    · exact .inl hnone
    · exact .inr ⟨merged, hmerged, hlt⟩
  intro th operation
  have hsize : operation.members.toList.length = operation.size := Array.length_toList
  have hlen : (opening t operation.members.toList).length = operation.size := by
    rw [opening, List.length_map, hsize]
  refine ⟨?_, ?_, ?_⟩
  · rw [← hlen]
    exact length_tail_rounds_le ..
  · intro hrounds last hlast
    exact final_of_getLast?_rounds (by omega) hlast
  · intro r s hr hs
    have hsame := map_fst_run_eq th t start operation (r := r) (s := s) (by omega) (by omega)
    rw [cluster_eq_map_fst, cluster_eq_map_fst, hsame]

/-- Three calls that take two rounds: a limit of one would show in the cluster. -/
theorem returning_ends_early :
    returningOperation.size - 1 ≤ Thresholds.default.maxMergeRounds ∧
      returningOperation.size - 1 ≤ 2 ∧
      (history .default fork ⟨0⟩ returningOperation).tail.length = 2 ∧
      (∀ last, (history .default fork ⟨0⟩ returningOperation).getLast? = some last →
        Final fork ⟨0⟩ (significance .default fork returningOperation.members.toList) last) ∧
      cluster { Thresholds.default with maxMergeRounds := 2 } fork ⟨0⟩ returningOperation =
        cluster .default fork ⟨0⟩ returningOperation ∧
      (cluster { Thresholds.default with maxMergeRounds := 1 } fork ⟨0⟩
        returningOperation).toOption.map (fun c => c.invocations) = some [⟨2⟩, ⟨3⟩] := by
  have hlimit : returningOperation.size - 1 ≤ Thresholds.default.maxMergeRounds := by decide
  obtain ⟨-, hends⟩ := cluster_ends_early fork ⟨0⟩
  obtain ⟨-, hfinal, hsame⟩ := hends .default returningOperation
  exact ⟨hlimit, by decide, by decide +kernel, hfinal hlimit,
    hsame 2 1000 (by decide) (by decide), by decide +kernel⟩

end Clustering
end SlowRequest
