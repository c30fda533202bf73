import SlowRequest.Proofs.Clustering.Context
/-!
# When a clustering gives up

Parts that no round can join are left exactly if a join has put the second part under a call that
encloses the context of the first one: the walk then meets the second context too early, and no
part is given a distance.
-/
namespace SlowRequest

namespace Clustering

open CallTree (Encloses)

variable {t : CallTree} {start : NodeId} {sig : Float} {n : Nat} {parts : List Part}
  {lists : List (List Part)} {p : Part}

/-- No part of `parts` is significant, and the context of the second one encloses that of the
first one. -/
def Overtaken (t : CallTree) (sig : Float) (parts : List Part) : Prop :=
  significant? sig parts = none ∧
    ∃ q r rest, parts = q :: r :: rest ∧ t.Encloses r.context q.context

theorem contexts_sublist_iff {q r : Part} {rest : List Part}
    (hsound : ∀ s ∈ q :: r :: rest, Part.Sound t start s)
    (horder : ((q :: r :: rest).flatMap fun s => s.invocations).Sublist
      ((t.depthFirst start).map Prod.fst)) :
    [q.context, r.context].Sublist ((t.depthFirst start).map Prod.fst) ↔
      ¬ t.Encloses r.context q.context := by
  have hq := hsound q (by simp)
  have hr := hsound r (by simp)
  obtain ⟨u, us, hu, hqu⟩ := hq.leads
  obtain ⟨v, vs, hv, hrv⟩ := hr.leads
  have hpair : [u, v].Sublist ((t.depthFirst start).map Prod.fst) := by
    apply List.Sublist.trans ?_ horder
    rw [List.flatMap_cons, List.flatMap_cons, hu, hv, List.cons_append]
    apply List.Sublist.cons_cons
    apply List.Sublist.trans ?_ (List.sublist_append_right us _)
    simp
  have hu_mem : u ∈ (t.depthFirst start).map Prod.fst := hpair.subset (by simp)
  have hstart : t.contains start := (CallTree.mem_map_depthFirst.mp hu_mem).1
  have hmem : ∀ s : Part, Part.Sound t start s →
      s.context ∈ (t.depthFirst start).map Prod.fst := fun s hs =>
    CallTree.mem_map_depthFirst.mpr ⟨hstart, hs.below⟩
  exact CallTree.sublist_iff_not_encloses hpair (hmem q hq) (hmem r hr) hqu hrv

private theorem closestDistance?_eq_none_iff {q r : Part} {rest : List Part}
    (hsound : ∀ s ∈ q :: r :: rest, Part.Sound t start s)
    (horder : ((q :: r :: rest).flatMap fun s => s.invocations).Sublist
      ((t.depthFirst start).map Prod.fst)) :
    Part.closestDistance? (Part.assignDistances (t.depthFirst start) (q :: r :: rest)) = none ↔
      t.Encloses r.context q.context := by
  have hafter := contexts_sublist_iff hsound horder
  rw [Part.closestDistance?_eq_none]
  have hdist := Part.map_distance_assignDistances (t.depthFirst start) (q :: r :: rest)
  rw [List.map_cons, List.map_cons] at hdist
  constructor
  · intro hnone
    by_contra henc
    obtain ⟨d, ds, hds⟩ := Part.distances_of_after (rest.map fun p => p.context)
      (hafter.mpr henc)
    rw [hds] at hdist
    obtain ⟨s, ss, hs, hsd, -⟩ := List.map_eq_cons_iff.mp hdist
    have := hnone s (by rw [hs]; exact List.mem_cons_self)
    rw [hsd] at this
    cases this
  · intro henc s hs
    have hnot : ¬ [q.context, r.context].Sublist ((t.depthFirst start).map Prod.fst) :=
      fun h => hafter.mp h henc
    rw [Part.distances_of_not_after hnot] at hdist
    have hsd : s.distance ∈ (Part.assignDistances (t.depthFirst start) (q :: r :: rest)).map
        fun p => p.distance := List.mem_map_of_mem hs
    rw [hdist] at hsd
    simp only [List.mem_cons, List.mem_map] at hsd
    rcases hsd with h | h | ⟨_, _, h⟩
    · exact h
    · exact h
    · exact h.symm

/-- Unless a list on the way is overtaken, enough rounds end in significance or with all calls. -/
theorem Course.complete (h : Course t start sig n parts lists p)
    (hlen : parts.length ≤ n)
    (hsound : ∀ q ∈ parts, Part.Sound t start q)
    (horder : (parts.flatMap fun q => q.invocations).Sublist ((t.depthFirst start).map Prod.fst))
    (hway : ∀ list ∈ lists, ¬ Overtaken t sig list) :
    sig < p.exclusiveTime ∨ p.invocations = parts.flatMap fun q => q.invocations := by
  induction h with
  | @stop n parts p mem why =>
    rcases why with hsig | ⟨hnone, hzero | hclosest⟩
    · exact .inl hsig
    · have hpos := List.length_pos_of_mem mem
      omega
    · right
      match parts with
      | [q] =>
        rw [List.mem_singleton.mp mem]
        simp
      | q :: r :: rest =>
        have henc := (closestDistance?_eq_none_iff hsound horder).mp hclosest
        exact absurd ⟨hnone, q, r, rest, rfl, henc⟩ (hway _ List.mem_cons_self)
  | @merge n parts merged lists p _ merges _ ih =>
    have hlt := merges.length_lt
    rw [← merges.flatMap_invocations]
    apply ih (by omega) (merges.sound hsound)
    · rw [merges.flatMap_invocations]
      exact horder
    · exact fun list hlist => hway list (List.mem_cons_of_mem _ hlist)

theorem Course.not_overtaken (h : Course t start sig n parts lists p)
    (hsound : ∀ q ∈ parts, Part.Sound t start q)
    (horder : (parts.flatMap fun q => q.invocations).Sublist ((t.depthFirst start).map Prod.fst))
    (hend : sig < p.exclusiveTime ∨
      (parts.flatMap fun q => q.invocations) ⊆ p.invocations) :
    ∀ list ∈ lists, ¬ Overtaken t sig list := by
  induction h with
  | @stop n parts p mem why =>
    intro list hlist
    rw [List.mem_singleton.mp hlist]
    rintro ⟨hnone, q, r, rest, rfl, -⟩
    rcases hend with hsig | hall
    · exact significant?_eq_none.mp hnone p mem hsig
    · -- another part holds calls, too, and no call is in two parts
      have hnodup := horder.nodup (CallTree.nodup_depthFirst t start)
      have hother : ∀ s ∈ q :: r :: rest, s = p := by
        intro s hs
        by_contra hne
        obtain ⟨x, xs, hx, -⟩ := (hsound s hs).leads
        have hxs : x ∈ s.invocations := by
          rw [hx]
          exact List.mem_cons_self
        exact disjoint_of_nodup_flatMap hnodup hs mem hne hxs
          (hall (List.mem_flatMap.mpr ⟨s, hs, hxs⟩))
      have hqp := hother q (by simp)
      have hrp := hother r (by simp)
      obtain ⟨x, xs, hx, -⟩ := (hsound p mem).leads
      rw [List.flatMap_cons, List.flatMap_cons, hqp, hrp, hx] at hnodup
      simp at hnodup
  | @merge n parts merged lists p _ merges _ ih =>
    intro list hlist
    rcases List.mem_cons.mp hlist with rfl | hlist
    · rintro ⟨-, q, r, rest, rfl, henc⟩
      obtain ⟨d, hd, -⟩ := merges
      rw [(closestDistance?_eq_none_iff hsound horder).mpr henc] at hd
      cases hd
    · rw [← merges.flatMap_invocations] at horder hend
      exact ih (merges.sound hsound) horder hend list hlist

/-- With as many rounds as calls, the cluster is significant or holds all calls exactly if no
list of parts on the way is overtaken. -/
theorem cluster_significant_or_all_iff (th : Thresholds) (t : CallTree) (start : NodeId)
    (operation : Aggregate)
    (hne : operation.members.toList ≠ [])
    (htimed : ∀ id ∈ operation.members.toList, t.Timed id)
    (horder : operation.members.toList.Sublist ((t.depthFirst start).map Prod.fst))
    (hrounds : operation.members.toList.length ≤ th.maxMergeRounds) :
    ∃ c, cluster th t start operation = .ok c ∧
      ((th.proportion * (operation.members.toList.map t.exclusiveTime).foldl (· + ·) 0.0
            < c.exclusiveTime ∨
          ∀ x ∈ operation.members.toList, x ∈ c.invocations) ↔
        ∀ parts ∈ history th t start operation,
          ¬ Overtaken t (significance th t operation.members.toList) parts) := by
  obtain ⟨p, how, hrun, hcourse⟩ := run_course th t start hne htimed
  have hsound := sound_opening (t := t) horder
  have hmembers := flatMap_opening t operation.members.toList
  rw [← hmembers] at horder
  refine ⟨p.toCluster, by rw [cluster, hrun]; rfl, ?_⟩
  constructor
  · intro hend
    apply hcourse.not_overtaken hsound horder
    rw [hmembers]
    exact hend
  · intro hway
    have hlen : (opening t operation.members.toList).length ≤ th.maxMergeRounds := by
      rw [opening, List.length_map]
      exact hrounds
    rcases hcourse.complete hlen hsound horder hway with hsig | hall
    · exact .inl hsig
    · right
      rw [hall, hmembers]
      exact fun x hx => hx

def forkCalls : CallTree.Builder :=
  CallTree.Builder.grow (.ofRoot (Call.timed 1 1000.0 0.0))
    [(0, Call.timed 2 300.0 0.0), (1, Call.timed 7 100.0 100.0), (0, Call.timed 7 100.0 100.0),
      (0, Call.timed 7 100.0 100.0)]

/-- Of three equal calls the last two are siblings, and the first one lies deeper below the same
call. -/
def fork : CallTree where
  nodes := forkCalls.nodes
  consistent := forkCalls.consistent
  nonempty := by decide +kernel

def forkOperation : Aggregate :=
  ⟨⟨7, none, none⟩, #[⟨2⟩, ⟨3⟩, ⟨4⟩], #[100.0, 100.0, 100.0], 300.0, 300.0⟩

theorem fork_significant_or_all_iff :
    forkOperation.members.toList ≠ [] ∧
      (∀ id ∈ forkOperation.members.toList, fork.Timed id) ∧
      forkOperation.members.toList.Sublist ((fork.depthFirst ⟨0⟩).map Prod.fst) ∧
      forkOperation.members.toList.length ≤ Thresholds.default.maxMergeRounds ∧
      ∃ c, cluster .default fork ⟨0⟩ forkOperation = .ok c ∧
        ((Thresholds.default.proportion *
              (forkOperation.members.toList.map fork.exclusiveTime).foldl (· + ·) 0.0
              < c.exclusiveTime ∨
            ∀ x ∈ forkOperation.members.toList, x ∈ c.invocations) ↔
          ∀ parts ∈ history .default fork ⟨0⟩ forkOperation,
            ¬ Overtaken fork (significance .default fork forkOperation.members.toList) parts) := by
  have hne : forkOperation.members.toList ≠ [] := by decide
  have htimed : ∀ id ∈ forkOperation.members.toList, fork.Timed id := by decide +kernel
  have horder : forkOperation.members.toList.Sublist ((fork.depthFirst ⟨0⟩).map Prod.fst) := by
    decide +kernel
  have hrounds : forkOperation.members.toList.length ≤ Thresholds.default.maxMergeRounds := by
    decide
  exact ⟨hne, htimed, horder, hrounds,
    cluster_significant_or_all_iff .default fork ⟨0⟩ forkOperation hne htimed horder hrounds⟩

/-- The siblings are joined under the call that encloses the first one, and that ends the
clustering: two of three equal calls are taken, which is no significant share. -/
theorem fork_gives_up :
    forkOperation.members.toList ≠ [] ∧
      (∀ id ∈ forkOperation.members.toList, fork.Timed id) ∧
      forkOperation.members.toList.Sublist ((fork.depthFirst ⟨0⟩).map Prod.fst) ∧
      forkOperation.members.toList.length ≤ Thresholds.default.maxMergeRounds ∧
      ∃ c, cluster .default fork ⟨0⟩ forkOperation = .ok c ∧
        c.invocations = [⟨3⟩, ⟨4⟩] ∧
        ¬ (Thresholds.default.proportion *
              (forkOperation.members.toList.map fork.exclusiveTime).foldl (· + ·) 0.0
              < c.exclusiveTime ∨
            ∀ x ∈ forkOperation.members.toList, x ∈ c.invocations) := by
  refine ⟨by decide, by decide +kernel, by decide +kernel, by decide, ?_⟩
  have hrun : (cluster .default fork ⟨0⟩ forkOperation).toOption.map
      (fun c => (c.invocations, c.exclusiveTime)) = some ([⟨3⟩, ⟨4⟩], 200.0) := by decide +kernel
  cases hc : cluster .default fork ⟨0⟩ forkOperation with
  | error e =>
    rw [hc] at hrun
    cases hrun
  | ok c =>
    rw [hc] at hrun
    simp only [Except.toOption, Option.map_some, Option.some.injEq, Prod.mk.injEq] at hrun
    obtain ⟨hinv, htime⟩ := hrun
    refine ⟨c, rfl, hinv, ?_⟩
    rw [hinv, htime]
    decide +kernel

end Clustering
end SlowRequest
