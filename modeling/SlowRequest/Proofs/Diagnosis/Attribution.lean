import Mathlib.Order.Bounds.Basic
import SlowRequest.Diagnosis.Attribution
import SlowRequest.Proofs.Clustering.Rounds
import SlowRequest.Proofs.Diagnosis.Grouping
/-!
# How much of the candidates is the cause

The greedy pass takes the fewest candidates, one at least, that explain the limit or are all there
are. If it takes several and not all, the run of candidates after them that stays above the lower
bound is taken as well. So the cause is the aggregate of a prefix of the candidates.
-/
namespace SlowRequest

namespace Attribution

/-- So many of the times, one at least, are all of them or do not sum up to less than the limit. -/
def Suffices (limit : Float) (times : List Float) (k : Nat) : Prop :=
  1 ≤ k ∧ (k = times.length ∨ ¬ leftSum (times.take k) < limit)

def mean (times : List Float) : Float := leftSum times / Float.ofNat times.length

def deviation (times : List Float) : Float :=
  (leftSum (times.map fun x => (x - mean times) * (x - mean times))
    / Float.ofNat times.length).sqrt

def lower (sigmaFactor : Float) (times : List Float) : Float :=
  mean times - sigmaFactor * deviation times

/-- The longest run of `ids` none of whose times is at or below `bound`. -/
def runAbove (t : CallTree) (bound : Float) (ids : List NodeId) : List NodeId :=
  ids.takeWhile fun id => !decide (t.exclusiveTime id ≤ bound)

/-- What is taken when the greedy pass takes `k` candidates. -/
def share (t : CallTree) (sigmaFactor : Float) (candidates : List NodeId) (k : Nat) :
    List NodeId :=
  candidates.take k ++
    if 1 < k ∧ k < candidates.length then
      runAbove t (lower sigmaFactor ((candidates.take k).map t.exclusiveTime)) (candidates.drop k)
    else []

variable {t : CallTree} {ids candidates : List NodeId}

theorem share_leads (t : CallTree) (sigmaFactor : Float) (candidates : List NodeId) (k : Nat) :
    share t sigmaFactor candidates k <+: candidates := by
  conv_rhs => rw [← List.take_append_drop k candidates]
  rw [share, List.prefix_append_right_inj]
  split
  · exact List.takeWhile_prefix _
  · exact List.nil_prefix

theorem share_ne_nil {k : Nat} (sigmaFactor : Float) (hne : candidates ≠ []) (hk : 1 ≤ k) :
    share t sigmaFactor candidates k ≠ [] := by
  obtain ⟨first, rest, rfl⟩ := List.exists_cons_of_ne_nil hne
  obtain ⟨k, rfl⟩ := Nat.exists_eq_add_of_le' hk
  simp [share]

private theorem lowerBound_ofCalls (t : CallTree) (sigmaFactor : Float) (key : OperationKey)
    (ids : List NodeId) :
    lowerBound sigmaFactor (.ofCalls t key ids) = lower sigmaFactor (ids.map t.exclusiveTime) := by
  simp only [lowerBound, lower, deviation, mean, ← Array.foldl_toList]
  simp only [Aggregate.ofCalls, Aggregate.size, List.size_toArray, List.length_map, leftSum,
    List.foldl_map]

private theorem unexplained_ofCalls {limit : Float} {key : OperationKey} :
    ((Aggregate.ofCalls t key ids).size = 0 ∨
        (Aggregate.ofCalls t key ids).exclusiveTime < limit) ↔
      ids = [] ∨ leftSum (ids.map t.exclusiveTime) < limit :=
  or_congr_left List.length_eq_zero_iff

/-- The greedy pass goes on until what it has taken suffices, and not further. It stops short at a
call that is not timed. -/
theorem greedy_ofCalls (t : CallTree) (limit : Float) (key : OperationKey)
    (taken ids : List NodeId) :
    ∃ k ≤ ids.length,
      greedy t limit ids (.ofCalls t key taken)
          = (match t.untimed? (ids.take k) with
            | some id => .error (t.untimedFault id)
            | none => .ok (.ofCalls t key (taken ++ ids.take k), ids.drop k)) ∧
        (k = ids.length ∨ taken ++ ids.take k ≠ [] ∧
          ¬ leftSum ((taken ++ ids.take k).map t.exclusiveTime) < limit) ∧
        ∀ j < k, taken ++ ids.take j = [] ∨
          leftSum ((taken ++ ids.take j).map t.exclusiveTime) < limit := by
  induction ids generalizing taken with
  | nil =>
    refine ⟨0, Nat.le_refl 0, ?_, .inl rfl, by simp⟩
    rw [greedy, List.take_nil, List.append_nil, List.drop_nil]
    rfl
  | cons id ids ih =>
    by_cases htake : taken = [] ∨ leftSum (taken.map t.exclusiveTime) < limit
    · obtain ⟨k, hk, hgreedy, hstop, hgo⟩ := ih (taken ++ [id])
      simp only [List.append_assoc, List.singleton_append, ← List.take_succ_cons]
        at hgreedy hstop hgo
      refine ⟨k + 1, Nat.succ_le_succ hk, ?_, ?_, ?_⟩
      · rw [greedy, if_pos (unexplained_ofCalls.mpr htake)]
        by_cases htimed : t.Timed id
        · obtain ⟨n, hn, htimer⟩ := htimed.exists
          rw [CallTree.diagnosedNode_of_get? hn]
          simp only [bind, Except.bind, htimer, Aggregate.push_ofCalls key taken hn]
          rw [List.take_succ_cons, CallTree.untimed?_cons_of_timed _ htimed]
          exact hgreedy
        · rw [List.take_succ_cons, CallTree.untimed?_cons_of_untimed _ htimed]
          exact CallTree.ask_untimed htimed _
      · exact hstop.imp_left (congrArg Nat.succ)
      · intro j hj
        cases j with
        | zero =>
          rw [List.take_zero, List.append_nil]
          exact htake
        | succ j => exact hgo j (Nat.lt_of_succ_lt_succ hj)
    · refine ⟨0, Nat.zero_le _, ?_, ?_, by simp⟩
      · rw [greedy, if_neg (fun h => htake (unexplained_ofCalls.mp h)), List.take_zero,
          List.append_nil, List.drop_zero]
        rfl
      · rw [List.take_zero, List.append_nil]
        exact .inr (not_or.mp htake)

private theorem extend_ofCalls (bound : Float) (key : OperationKey) (taken : List NodeId)
    (hids : ∀ id ∈ ids, t.contains id) :
    extend t bound ids (.ofCalls t key taken)
      = .ok (.ofCalls t key (taken ++ runAbove t bound ids)) := by
  induction ids generalizing taken with
  | nil => rw [extend, runAbove, List.takeWhile_nil, List.append_nil]
  | cons id ids ih =>
    obtain ⟨n, hn⟩ := CallTree.exists_get? (hids id List.mem_cons_self)
    have hrest := ih (taken ++ [id]) fun x hx => hids x (List.mem_cons_of_mem _ hx)
    rw [extend, CallTree.diagnosedNode_of_get? hn, runAbove, List.takeWhile_cons,
      CallTree.exclusiveTime_of_get? hn]
    simp only [bind, Except.bind]
    by_cases hlow : n.exclusiveTime ≤ bound
    · simp only [hlow, if_true, decide_true, Bool.not_true, Bool.false_eq_true, if_false,
        List.append_nil]
      rfl
    · simp only [hlow, if_false, decide_false, Bool.not_false, if_true,
        Aggregate.push_ofCalls key taken hn]
      rw [hrest, List.append_assoc]
      rfl

/-- The cause among calls of the tree, under the key of the first: their share, if the fewest that
suffice are timed, or the fault of the first of these that is not. -/
theorem cause_eq_of_contains (th : Thresholds) (duration : Float) (hne : candidates ≠ [])
    (hcalls : ∀ id ∈ candidates, t.contains id) :
    ∃ key k, t.key? (candidates.head hne) = some key ∧
      IsLeast {k | Suffices (th.proportion * duration) (candidates.map t.exclusiveTime) k} k ∧
      cause th t candidates duration
        = match t.untimed? (candidates.take k) with
          | some id => .error (t.untimedFault id)
          | none => .ok (.ofCalls t key (share t th.sigmaFactor candidates k)) := by
  obtain ⟨first, rest, rfl⟩ := List.exists_cons_of_ne_nil hne
  obtain ⟨n, hn⟩ := CallTree.exists_get? (hcalls first List.mem_cons_self)
  obtain ⟨k, hk, hgreedy, hstop, hgo⟩ :=
    greedy_ofCalls t (th.proportion * duration) (.of n) [] (first :: rest)
  simp only [List.nil_append] at hgreedy hstop hgo
  have hpos : 1 ≤ k := by
    rcases hstop with rfl | ⟨htaken, -⟩
    · simp
    · rcases Nat.eq_zero_or_pos k with rfl | hpos
      · exact absurd (List.take_zero) htaken
      · exact hpos
  refine ⟨.of n, k, CallTree.key?_of_get? hn, ⟨⟨hpos, ?_⟩, ?_⟩, ?_⟩
  · rw [List.length_map, ← List.map_take]
    exact hstop.imp_right And.right
  · rintro j ⟨hj, hall⟩
    by_contra hlt
    rw [List.length_map, ← List.map_take] at hall
    rcases hgo j (Nat.lt_of_not_le hlt) with hnil | hless
    · rw [List.take_eq_nil_iff] at hnil
      rcases hnil with rfl | hnil
      · omega
      · cases hnil
    · rcases hall with rfl | hnot
      · omega
      · exact hnot hless
  · have hleft : ∀ id ∈ (first :: rest).drop k, t.contains id :=
      fun id hid => hcalls id (List.mem_of_mem_drop hid)
    have hsize : (Aggregate.ofCalls t (.of n) ((first :: rest).take k)).size = k :=
      List.length_take_of_le hk
    have hcond : (1 < k ∧ (first :: rest).drop k ≠ []) ↔ 1 < k ∧ k < (first :: rest).length := by
      rw [ne_eq, List.drop_eq_nil_iff, Nat.not_le]
    rw [cause, CallTree.diagnosedNode_of_get? hn, share]
    simp only [bind, Except.bind, Aggregate.empty_eq_ofCalls t, hgreedy]
    cases t.untimed? ((first :: rest).take k) with
    | some id => rfl
    | none =>
      simp only [hsize, hcond]
      split
      · rw [extend_ofCalls _ _ _ hleft, lowerBound_ofCalls]
      · rw [List.append_nil]
        rfl

theorem cause_eq_ofCalls (th : Thresholds) (duration : Float) (hne : candidates ≠ [])
    (htimed : ∀ id ∈ candidates, t.Timed id) :
    ∃ key k, t.key? (candidates.head hne) = some key ∧
      IsLeast {k | Suffices (th.proportion * duration) (candidates.map t.exclusiveTime) k} k ∧
      cause th t candidates duration
        = .ok (.ofCalls t key (share t th.sigmaFactor candidates k)) := by
  obtain ⟨key, k, hkey, hleast, hcause⟩ :=
    cause_eq_of_contains th duration hne fun id hid => (htimed id hid).contains
  refine ⟨key, k, hkey, hleast, ?_⟩
  rw [hcause, CallTree.untimed?_eq_none.mpr fun id hid => htimed id (List.mem_of_mem_take hid)]

/-- The cause among timed candidates is keyed by the first of them. Its calls are the fewest that
suffice and, if these are several and not all, the run after them above the lower bound. -/
theorem cause_is_share (th : Thresholds) (t : CallTree) (duration : Float)
    {candidates : List NodeId} (hne : candidates ≠ []) (htimed : ∀ id ∈ candidates, t.Timed id) :
    ∃ found k, cause th t candidates duration = .ok found ∧
      IsLeast {k | Suffices (th.proportion * duration) (candidates.map t.exclusiveTime) k} k ∧
      t.key? (candidates.head hne) = some found.key ∧
      found.members.toList = share t th.sigmaFactor candidates k ∧
      found.exclusiveTimes.toList = found.members.toList.map t.exclusiveTime ∧
      found.exclusiveTime = leftSum (found.members.toList.map t.exclusiveTime) ∧
      found.duration = leftSum (found.members.toList.map t.duration) ∧
      found.members.toList ≠ [] ∧ found.members.toList <+: candidates := by
  obtain ⟨key, k, hkey, hleast, hcause⟩ := cause_eq_ofCalls th duration hne htimed
  exact ⟨_, k, hcause, hleast, hkey, rfl, rfl, rfl, rfl,
    share_ne_nil th.sigmaFactor hne hleast.1.1, share_leads t th.sigmaFactor candidates k⟩

def unevenCalls : CallTree.Builder :=
  CallTree.Builder.grow (.ofRoot (Call.timed 1 3100.0 0.0))
    [(0, Call.timed 7 2000.0 2000.0), (0, Call.timed 7 1000.0 1000.0),
      (0, Call.timed 7 100.0 100.0)]

/-- Two calls that suffice, far enough apart for the small one after them to be taken, too. -/
def uneven : CallTree where
  nodes := unevenCalls.nodes
  consistent := unevenCalls.consistent
  nonempty := by decide +kernel

theorem cause_is_share_uneven :
    ∃ hne : [⟨1⟩, ⟨2⟩, ⟨3⟩] ≠ ([] : List NodeId),
      (∀ id ∈ ([⟨1⟩, ⟨2⟩, ⟨3⟩] : List NodeId), uneven.Timed id) ∧
      ∃ found k, cause .default uneven [⟨1⟩, ⟨2⟩, ⟨3⟩] 3100.0 = .ok found ∧
        IsLeast {k | Suffices (Thresholds.default.proportion * 3100.0)
          ([⟨1⟩, ⟨2⟩, ⟨3⟩].map uneven.exclusiveTime) k} k ∧
        uneven.key? ([⟨1⟩, ⟨2⟩, ⟨3⟩].head hne) = some found.key ∧
        found.members.toList =
          share uneven Thresholds.default.sigmaFactor [⟨1⟩, ⟨2⟩, ⟨3⟩] k ∧
        found.exclusiveTimes.toList = found.members.toList.map uneven.exclusiveTime ∧
        found.exclusiveTime = leftSum (found.members.toList.map uneven.exclusiveTime) ∧
        found.duration = leftSum (found.members.toList.map uneven.duration) ∧
        found.members.toList ≠ [] ∧ found.members.toList <+: [⟨1⟩, ⟨2⟩, ⟨3⟩] := by
  have hne : [⟨1⟩, ⟨2⟩, ⟨3⟩] ≠ ([] : List NodeId) := by decide
  have htimed : ∀ id ∈ ([⟨1⟩, ⟨2⟩, ⟨3⟩] : List NodeId), uneven.Timed id := by decide +kernel
  exact ⟨hne, htimed, cause_is_share .default uneven 3100.0 hne htimed⟩

example : ((cause .default uneven [⟨1⟩, ⟨2⟩, ⟨3⟩] 3100.0).toOption.map fun found =>
    (found.members.toList, found.exclusiveTime)) = some ([⟨1⟩, ⟨2⟩, ⟨3⟩], 3100.0) := by
  decide +kernel

end Attribution
end SlowRequest
