import SlowRequest.Proofs.Clustering.Failures
import SlowRequest.Proofs.Diagnosis.Grouping
/-!
# Blocks of calls

A merge round cuts the list of parts into runs of neighbours and joins each run. So the parts always
hold the calls of the operation in their order, cut into blocks, and the time of a block is made of
the times of its calls by additions alone.
-/
namespace SlowRequest

namespace Cluster

/-- `c` holds the calls of several clusters, one after the other, and the times of these clusters
summed from the left. -/
structure IsJoin (run : List Cluster) (c : Cluster) : Prop where
  several : 2 ≤ run.length
  invocations : c.invocations = run.flatMap fun b => b.invocations
  exclusiveTime : c.exclusiveTime = leftSum (run.map fun b => b.exclusiveTime)

/-- The time of a cluster is that of its one call, or a sum for clusters that it was joined from,
whose own times have come about in the same way. -/
inductive AddsUp (t : CallTree) : Cluster → Prop
  | call {c : Cluster} {id : NodeId} (invocations : c.invocations = [id])
      (exclusiveTime : c.exclusiveTime = t.exclusiveTime id) : AddsUp t c
  | join {c : Cluster} {run : List Cluster} (join : IsJoin run c)
      (each : ∀ b ∈ run, AddsUp t b) : AddsUp t c

/-- Runs of neighbours in `before` make up `after`: a single one stays, several are joined. -/
def Regroups (before after : List Cluster) : Prop :=
  ∃ runs : List (List Cluster), runs.flatten = before ∧
    List.Forall₂ (fun run c => run = [c] ∨ IsJoin run c) runs after

/-- The calls `ids` in their order, cut into blocks whose times add up. -/
structure Cuts (t : CallTree) (ids : List NodeId) (blocks : List Cluster) : Prop where
  calls : (blocks.flatMap fun c => c.invocations) = ids
  inhabited : ∀ c ∈ blocks, c.invocations ≠ []
  times : ∀ c ∈ blocks, AddsUp t c

variable {t : CallTree} {ids : List NodeId} {before after : List Cluster} {c : Cluster}

theorem AddsUp.ne_nil (h : AddsUp t c) : c.invocations ≠ [] := by
  induction h with
  | call invocations _ => simp [invocations]
  | @join c run join _ ih =>
    obtain ⟨b, hb⟩ := List.exists_mem_of_length_pos (Nat.lt_of_lt_of_le Nat.two_pos join.several)
    rw [join.invocations]
    intro hnil
    exact ih b hb (List.flatMap_eq_nil_iff.mp hnil b hb)

theorem Regroups.flatMap_invocations (h : Regroups before after) :
    (after.flatMap fun c => c.invocations) = before.flatMap fun c => c.invocations := by
  obtain ⟨runs, rfl, hall⟩ := h
  induction hall with
  | nil => rfl
  | @cons run c runs after hrun _ ih =>
    have hcalls : c.invocations = run.flatMap fun b => b.invocations := by
      rcases hrun with rfl | hjoin
      · simp
      · exact hjoin.invocations
    rw [List.flatMap_cons, List.flatten_cons, List.flatMap_append, ih, hcalls]

/-- Joining neighbours leaves the calls and their order alone, and only adds times. -/
theorem Regroups.cuts (h : Regroups before after) (hbefore : Cuts t ids before) :
    Cuts t ids after := by
  have htimes : ∀ c ∈ after, AddsUp t c := by
    obtain ⟨runs, rfl, hall⟩ := h
    intro c hc
    obtain ⟨run, hrun, hmade⟩ := exists_left_of_forall₂ hall hc
    have heach : ∀ b ∈ run, AddsUp t b := fun b hb =>
      hbefore.times b (List.mem_flatten.mpr ⟨run, hrun, hb⟩)
    rcases hmade with rfl | hjoin
    · exact heach c List.mem_cons_self
    · exact .join hjoin heach
  exact ⟨h.flatMap_invocations.trans hbefore.calls, fun c hc => (htimes c hc).ne_nil, htimes⟩

theorem Cuts.infix (h : Cuts t ids before) (hc : c ∈ before) : c.invocations <:+: ids := by
  rw [← h.calls, List.flatMap_def]
  exact List.infix_of_mem_flatten (List.mem_map_of_mem hc)

end Cluster

def clustersOf (parts : List Part) : List Cluster := parts.map fun p => p.toCluster

namespace Part

open Cluster (IsJoin Regroups)

variable {t : CallTree} {walk : List (NodeId × Nat)} {parts merged : List Part} {d : Nat}

private theorem ne_nil_of_mem_runs {r : List Part} (h : r ∈ runs d parts) : r ≠ [] := by
  induction parts with
  | nil => cases h
  | cons p ps ih =>
    unfold runs at h
    split at h
    · rcases List.mem_cons.mp h with rfl | h
      · exact List.cons_ne_nil _ _
      · exact ih h
    · split at h
      · rw [List.mem_singleton.mp h]
        exact List.cons_ne_nil _ _
      · rename_i r' rs hruns
        rcases List.mem_cons.mp h with rfl | h
        · exact List.cons_ne_nil _ _
        · exact ih (hruns ▸ List.mem_cons_of_mem _ h)

private theorem join_regroups {r joined : List Part} (hne : r ≠ []) (h : join t r = .ok joined) :
    ∃ m, joined = [m] ∧ (clustersOf r = [m.toCluster] ∨ IsJoin (clustersOf r) m.toCluster) := by
  match r with
  | [p] =>
    cases h
    exact ⟨p, rfl, .inl rfl⟩
  | p :: q :: ps =>
    simp only [join] at h
    split at h
    · cases h
    · cases h
      refine ⟨_, rfl, .inr ⟨?_, ?_, ?_⟩⟩
      · simp [clustersOf]
      · rw [clustersOf, List.flatMap_map]
      · rw [leftSum, clustersOf, List.map_map, List.foldl_map]
        rfl

private theorem joinAll_regroups {rs : List (List Part)} (hne : ∀ r ∈ rs, r ≠ [])
    (h : joinAll t rs = .ok merged) :
    List.Forall₂ (fun run c => run = [c] ∨ IsJoin run c) (rs.map clustersOf)
      (clustersOf merged) := by
  induction rs generalizing merged with
  | nil =>
    cases h
    exact .nil
  | cons r rs ih =>
    rw [joinAll] at h
    cases hr : join t r with
    | error e =>
      rw [hr] at h
      cases h
    | ok joined =>
      cases hrs : joinAll t rs with
      | error e =>
        rw [hr, hrs] at h
        cases h
      | ok rest =>
        rw [hr, hrs] at h
        cases h
        obtain ⟨m, rfl, hm⟩ := join_regroups (hne r List.mem_cons_self) hr
        exact .cons hm (ih (fun r hr => hne r (List.mem_cons_of_mem _ hr)) hrs)

/-- A merge round joins neighbours and does nothing else to the parts. -/
theorem mergeClosest_regroups (h : mergeClosest t walk parts = .ok (some merged)) :
    Regroups (clustersOf parts) (clustersOf merged) := by
  rw [mergeClosest] at h
  split at h
  · cases h
  · rename_i d _
    cases hall : joinAll t (runs d (assignDistances walk parts)) with
    | error e =>
      rw [hall] at h
      cases h
    | ok joined =>
      rw [hall] at h
      cases h
      refine ⟨_, ?_, joinAll_regroups (fun _ => ne_nil_of_mem_runs) hall⟩
      have hflat : ((runs d (assignDistances walk parts)).map clustersOf).flatten =
          clustersOf (runs d (assignDistances walk parts)).flatten := List.map_flatten.symm
      rw [hflat, flatten_runs, clustersOf,
        map_assignDistances (fun p => p.toCluster) fun _ _ => rfl]
      rfl

end Part

namespace Clustering

open Cluster (AddsUp Regroups Cuts)

variable {t : CallTree} {start : NodeId} {sig : Float} {n : Nat} {parts : List Part}
  {lists : List (List Part)} {p : Part} {operation : Aggregate}

/-- `after` is what a merge round makes of `before`, by joining neighbours. -/
def Round (t : CallTree) (start : NodeId) (before after : List Part) : Prop :=
  Part.mergeClosest t (t.depthFirst start) before = .ok (some after) ∧
    Regroups (clustersOf before) (clustersOf after)

private theorem isChain_rounds (t : CallTree) (start : NodeId) (sig : Float) (n : Nat)
    (parts : List Part) :
    (rounds t (t.depthFirst start) sig n parts).IsChain (Round t start) := by
  induction n generalizing parts with
  | zero => exact List.isChain_singleton _
  | succ n ih =>
    rw [rounds]
    split
    · rename_i merged _ hmerged
      obtain ⟨rest, hrest⟩ := rounds_eq_cons t (t.depthFirst start) sig n merged
      have hchain := ih merged
      rw [hrest] at hchain ⊢
      exact List.isChain_cons_cons.mpr
        ⟨⟨hmerged, Part.mergeClosest_regroups hmerged⟩, hchain⟩
    · exact List.isChain_singleton _

private theorem cuts_opening (t : CallTree) (ids : List NodeId) :
    Cuts t ids (clustersOf (opening t ids)) := by
  have htimes : ∀ c ∈ clustersOf (opening t ids), AddsUp t c := by
    intro c hc
    obtain ⟨p, hp, rfl⟩ := List.mem_map.mp hc
    obtain ⟨id, -, rfl⟩ := List.mem_map.mp hp
    exact .call rfl rfl
  refine ⟨?_, fun c hc => (htimes c hc).ne_nil, htimes⟩
  rw [clustersOf, List.flatMap_map]
  exact flatMap_opening t ids

private theorem head?_history (th : Thresholds) (t : CallTree) (start : NodeId)
    (operation : Aggregate) :
    (history th t start operation).head? = some (opening t operation.members.toList) := by
  obtain ⟨rest, hrest⟩ := rounds_eq_cons t (t.depthFirst start)
    (significance th t operation.members.toList) th.maxMergeRounds
    (opening t operation.members.toList)
  rw [history, hrest, List.head?_cons]

/-- What holds of the opening and survives a round holds all along the history. -/
theorem forall_mem_history {P : List Part → Prop} (th : Thresholds) (t : CallTree)
    (start : NodeId) (operation : Aggregate)
    (hopening : P (opening t operation.members.toList))
    (hround : ∀ before after, Round t start before after → P before → P after) :
    ∀ parts ∈ history th t start operation, P parts := by
  apply List.IsChain.induction P _ (isChain_rounds t start _ _ _) hround
  intro hne
  have hhead := head?_history th t start operation
  rw [history, List.head?_eq_some_head hne, Option.some.injEq] at hhead
  rw [hhead]
  exact hopening

private theorem Course.mem_getLast (h : Course t start sig n parts lists p) :
    ∃ last, lists.getLast? = some last ∧ p ∈ last := by
  induction h with
  | stop mem _ => exact ⟨_, rfl, mem⟩
  | merge _ _ rest ih =>
    obtain ⟨last, hlast, hp⟩ := ih
    refine ⟨last, ?_, hp⟩
    rw [List.getLast?_cons, hlast]
    rfl

theorem timed_of_cluster {th : Thresholds} {c : Cluster}
    (h : cluster th t start operation = .ok c) :
    operation.members.toList ≠ [] ∧ ∀ id ∈ operation.members.toList, t.Timed id := by
  refine ⟨fun hnil => ?_, CallTree.untimed?_eq_none.mp ?_⟩
  · rw [cluster_of_no_calls th hnil] at h
    cases h
  · cases hfirst : t.untimed? operation.members.toList with
    | none => rfl
    | some id =>
      rw [cluster_of_untimed th hfirst] at h
      cases h

/-- The parts before and after every merge round cut the calls of the operation into blocks, in
their order, whose times are sums over their own calls. The cluster is a block of the last list. -/
theorem cluster_is_block (th : Thresholds) (t : CallTree) (start : NodeId)
    (operation : Aggregate) (c : Cluster) (h : cluster th t start operation = .ok c) :
    (history th t start operation).head? = some (opening t operation.members.toList) ∧
      (history th t start operation).IsChain (Round t start) ∧
      (∀ parts ∈ history th t start operation,
        Cuts t operation.members.toList (clustersOf parts)) ∧
      (∃ last, (history th t start operation).getLast? = some last ∧ c ∈ clustersOf last) ∧
      c.invocations ≠ [] ∧ c.invocations <:+: operation.members.toList := by
  obtain ⟨hne, htimed⟩ := timed_of_cluster h
  obtain ⟨p, how, hrun, hcourse⟩ := run_course th t start hne htimed
  have hc : c = p.toCluster := by
    rw [cluster, hrun] at h
    cases h
    rfl
  have hcuts := forall_mem_history th t start operation
    (cuts_opening t operation.members.toList) fun _ _ hround => hround.2.cuts
  obtain ⟨last, hlast, hp⟩ := hcourse.mem_getLast
  have hmem : c ∈ clustersOf last := hc ▸ List.mem_map_of_mem hp
  have hblocks := hcuts last (List.mem_of_getLast? hlast)
  exact ⟨head?_history th t start operation, isChain_rounds t start _ _ _, hcuts,
    ⟨last, hlast, hmem⟩, hblocks.inhabited c hmem, hblocks.infix hmem⟩

def returningOperation : Aggregate :=
  ⟨⟨7, none, none⟩, #[⟨2⟩, ⟨3⟩, ⟨2⟩], #[100.0, 100.0, 100.0], 300.0, 300.0⟩

/-- The walk does not come back to the third call, so the first round finds one distance only, and
joins two of three parts; the second round joins what is left. -/
theorem returning_is_block :
    ∃ c, cluster .default fork ⟨0⟩ returningOperation = .ok c ∧
      (history .default fork ⟨0⟩ returningOperation).map
          (fun parts => parts.map fun p => p.invocations) =
        [[[⟨2⟩], [⟨3⟩], [⟨2⟩]], [[⟨2⟩, ⟨3⟩], [⟨2⟩]], [[⟨2⟩, ⟨3⟩, ⟨2⟩]]] ∧
      (history .default fork ⟨0⟩ returningOperation).head? =
        some (opening fork returningOperation.members.toList) ∧
      (history .default fork ⟨0⟩ returningOperation).IsChain (Round fork ⟨0⟩) ∧
      (∀ parts ∈ history .default fork ⟨0⟩ returningOperation,
        Cuts fork returningOperation.members.toList (clustersOf parts)) ∧
      (∃ last, (history .default fork ⟨0⟩ returningOperation).getLast? = some last ∧
        c ∈ clustersOf last) ∧
      c.invocations ≠ [] ∧ c.invocations <:+: returningOperation.members.toList := by
  have hhistory : (history .default fork ⟨0⟩ returningOperation).map
      (fun parts => parts.map fun p => p.invocations) =
      [[[⟨2⟩], [⟨3⟩], [⟨2⟩]], [[⟨2⟩, ⟨3⟩], [⟨2⟩]], [[⟨2⟩, ⟨3⟩, ⟨2⟩]]] := by decide +kernel
  cases hc : cluster .default fork ⟨0⟩ returningOperation with
  | ok c =>
    exact ⟨c, rfl, hhistory, cluster_is_block .default fork ⟨0⟩ returningOperation c hc⟩
  | error e =>
    have hok : (cluster .default fork ⟨0⟩ returningOperation).isOk = true := by decide +kernel
    rw [hc] at hok
    cases hok

end Clustering
end SlowRequest
