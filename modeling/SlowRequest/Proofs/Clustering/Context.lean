import SlowRequest.Proofs.Clustering.Rounds
/-!
# The context of a cluster

The context of a run of parts is the place where its first two parts meet. It lies at or below
the lowest common ancestor of all calls of the cluster, and it is that ancestor exactly if it
encloses every place where a part of the cluster met the next one when the two were joined.
-/
namespace SlowRequest

namespace Clustering

open CallTree (Encloses)

/-- `q` is one of the closest of `parts`, and `m` the place where it and the part after it meet,
so many links above its context. -/
def JoinedAt (t : CallTree) (walk : List (NodeId × Nat)) (parts : List Part) (q : Part)
    (m : NodeId) : Prop :=
  q ∈ Part.assignDistances walk parts ∧
    ∃ d, Part.closestDistance? (Part.assignDistances walk parts) = some d ∧
      q.distance = some d ∧ t.ancestor q.context d = .ok m

variable {t : CallTree} {start a : NodeId} {sig : Float} {n : Nat} {parts merged : List Part}
  {lists : List (List Part)} {p : Part}

/-- What encloses the first context of a run and the places where neighbours of the run meet
encloses all its contexts. -/
theorem encloses_of_linked {d : Nat} {r : List Part} (hr : Part.Linked t d r)
    (hfirst : ∀ q ∈ r.head?, t.Encloses a q.context)
    (hplaces : ∀ q ∈ r, ∀ m, q.distance = some d → t.ancestor q.context d = .ok m →
      t.Encloses a m) : ∀ q ∈ r, t.Encloses a q.context := by
  induction r with
  | nil =>
    intro q hq
    cases hq
  | cons p r ih =>
    have hp : t.Encloses a p.context := hfirst p rfl
    cases r with
    | nil =>
      intro q hq
      rw [List.mem_singleton.mp hq]
      exact hp
    | cons q r =>
      obtain ⟨hd, ⟨m, hm, hlca⟩, hrest⟩ := hr
      have hq : t.Encloses a q.context :=
        (hplaces p List.mem_cons_self m hd hm).trans (hlca.common q.context (by simp))
      have htail := ih hrest (fun s hs => by cases hs; exact hq)
        fun s hs => hplaces s (List.mem_cons_of_mem _ hs)
      intro s hs
      rcases List.mem_cons.mp hs with rfl | hs
      · exact hp
      · exact htail s hs

/-- If the calls of every part of the cluster are covered by what encloses the context of the
part and the places of its joins, so are those of the cluster. -/
theorem Course.covers (h : Course t start sig n parts lists p)
    (hparts : ∀ q ∈ parts, q.invocations ⊆ p.invocations → t.Encloses a q.context →
      ∀ x ∈ q.invocations, t.Encloses a x)
    (hplaces : ∀ list ∈ lists.dropLast, ∀ q m, JoinedAt t (t.depthFirst start) list q m →
      q.invocations ⊆ p.invocations → t.Encloses a m)
    (hp : t.Encloses a p.context) : ∀ x ∈ p.invocations, t.Encloses a x := by
  induction h with
  | stop mem _ => exact hparts _ mem (List.Subset.refl _) hp
  | @merge n parts merged lists p _ merges rest ih =>
    rw [List.dropLast_cons_of_ne_nil rest.ne_nil] at hplaces
    refine ih ?_ (fun list hlist => hplaces list (List.mem_cons_of_mem _ hlist)) hp
    intro m hm hsub ha x hx
    obtain ⟨d, r, hd, hlinked, hjoins, hr⟩ := merges.exists_run hm
    rw [hjoins.invocations] at hx hsub
    obtain ⟨q, hq, hxq⟩ := List.mem_flatMap.mp hx
    have hsubq : ∀ s ∈ r, s.invocations ⊆ p.invocations := fun s hs y hy =>
      hsub (List.mem_flatMap.mpr ⟨s, hs, hy⟩)
    have hfirst : ∀ s ∈ r.head?, t.Encloses a s.context := by
      intro s hs
      rcases hjoins.context with rfl | ⟨s', q', ps, rfl, hm'⟩
      · cases hs
        exact ha
      · cases hs
        exact ha.trans ⟨d, hm'⟩
    have hall := encloses_of_linked hlinked hfirst fun s hs m' hsd hm' =>
      hplaces parts List.mem_cons_self s m' ⟨hr s hs, d, hd, hsd, hm'⟩ (hsubq s hs)
    obtain ⟨q', hq', heq⟩ := Part.exists_of_mem_assignDistances (hr q hq)
    have hctx := hall q hq
    have hinv := hsubq q hq
    rw [heq] at hctx hxq hinv
    exact hparts q' hq' hinv hctx x hxq

private theorem Course.subset_or_disjoint (h : Course t start sig n parts lists p)
    (hnodup : (parts.flatMap fun q => q.invocations).Nodup) :
    ∀ q ∈ parts, q.invocations ⊆ p.invocations ∨ q.invocations.Disjoint p.invocations := by
  induction h with
  | @stop n parts p mem _ =>
    intro q hq
    by_cases heq : q = p
    · rw [heq]
      exact .inl (List.Subset.refl _)
    · exact .inr (disjoint_of_nodup_flatMap hnodup hq mem heq)
  | merge _ merges _ ih =>
    intro q hq
    rw [← merges.flatMap_invocations] at hnodup
    obtain ⟨m, hm, hqm⟩ := merges.exists_into hq
    rcases ih hnodup m hm with h | h
    · exact .inl fun x hx => h (hqm hx)
    · exact .inr fun x hx hxp => h (hqm hx) hxp

theorem JoinedAt.exists_next {q : Part} {m : NodeId}
    (hjoin : JoinedAt t (t.depthFirst start) parts q m)
    (hsound : ∀ b ∈ parts, Part.Sound t start b)
    (hmerges : Part.Merges t (t.depthFirst start) parts merged) :
    ∃ q' b, b ∈ merged ∧ Part.Sound t start q ∧ Part.Sound t start q' ∧
      q.invocations ⊆ b.invocations ∧ q'.invocations ⊆ b.invocations ∧
      t.IsLowestCommonAncestor m [q.context, q'.context] := by
  obtain ⟨hq, d, hd, hqd, hm⟩ := hjoin
  obtain ⟨d', hd', hall⟩ := hmerges
  rw [hd] at hd'
  cases hd'
  obtain ⟨r, hr, s, q', u, rfl, a', ha', hlca⟩ :=
    Part.exists_run_of_mem (Part.spaced_assignDistances t start parts) hq hqd
  rw [hm] at ha'
  cases ha'
  have hrun : ∀ b ∈ s ++ q :: q' :: u, Part.Sound t start b := by
    intro b hb
    have hassigned : b ∈ Part.assignDistances (t.depthFirst start) parts := by
      rw [← Part.flatten_runs d (Part.assignDistances _ parts)]
      exact List.mem_flatten.mpr ⟨_, hr, hb⟩
    obtain ⟨b', hb', heq⟩ := Part.exists_of_mem_assignDistances hassigned
    exact (hsound b' hb').of_toCluster_eq heq
  obtain ⟨b, hb, hjoins⟩ := exists_right_of_forall₂ hall hr
  have hinto : ∀ c ∈ s ++ q :: q' :: u, c.invocations ⊆ b.invocations := by
    intro c hc x hx
    rw [hjoins.invocations]
    exact List.mem_flatMap.mpr ⟨c, hc, hx⟩
  exact ⟨q', b, hb, hrun q (by simp), hrun q' (by simp), hinto q (by simp), hinto q' (by simp),
    hlca⟩

/-- What encloses all calls of the cluster encloses the places of the joins on the way. -/
theorem Course.encloses_place (h : Course t start sig n parts lists p)
    (hnodup : (parts.flatMap fun q => q.invocations).Nodup)
    (hsound : ∀ q ∈ parts, Part.Sound t start q)
    (ha : ∀ x ∈ p.invocations, t.Encloses a x) :
    ∀ list ∈ lists.dropLast, ∀ q m, JoinedAt t (t.depthFirst start) list q m →
      q.invocations ⊆ p.invocations → t.Encloses a m := by
  induction h with
  | stop _ _ =>
    intro list hlist
    cases hlist
  | @merge n parts merged lists p _ merges rest ih =>
    have hnodup' : (merged.flatMap fun q => q.invocations).Nodup := by
      rw [merges.flatMap_invocations]
      exact hnodup
    rw [List.dropLast_cons_of_ne_nil rest.ne_nil]
    intro list hlist q m hjoin hsub
    rcases List.mem_cons.mp hlist with rfl | hlist
    · obtain ⟨q', b, hb, hq, hq', hinto, hinto', hlca⟩ := hjoin.exists_next hsound merges
      -- the part that `q` goes into ends up in the cluster, and with it the part after `q`
      have hbsub : b.invocations ⊆ p.invocations := by
        rcases rest.subset_or_disjoint hnodup' b hb with h | h
        · exact h
        · obtain ⟨x, _, hx, -⟩ := hq.leads
          have hxq : x ∈ q.invocations := by
            rw [hx]
            exact List.mem_cons_self
          exact absurd (hsub hxq) (h (hinto hxq))
      apply hlca.lowest
      simp only [List.mem_cons, List.not_mem_nil, or_false]
      rintro y (rfl | rfl)
      · exact hq.lowest a fun x hx => ha x (hsub hx)
      · exact hq'.lowest a fun x hx => ha x (hbsub (hinto' hx))
    · exact ih hnodup' (merges.sound hsound) ha list hlist q m hjoin hsub

/-- For timed calls below `start` in pre-order, the clustering comes to a cluster whose context
lies at or below every call that encloses the whole cluster. It is the lowest common ancestor of
the cluster exactly if it encloses every place where a part of the cluster met the next one. -/
theorem cluster_context_isLowest_iff (th : Thresholds) (t : CallTree) (start : NodeId)
    (operation : Aggregate)
    (hne : operation.members.toList ≠ [])
    (htimed : ∀ id ∈ operation.members.toList, t.Timed id)
    (horder : operation.members.toList.Sublist ((t.depthFirst start).map Prod.fst)) :
    ∃ c, cluster th t start operation = .ok c ∧
      (∀ b, (∀ x ∈ c.invocations, t.Encloses b x) → t.Encloses b c.context) ∧
      (t.IsLowestCommonAncestor c.context c.invocations ↔
        ∀ parts ∈ (history th t start operation).dropLast, ∀ q m,
          JoinedAt t (t.depthFirst start) parts q m → q.invocations ⊆ c.invocations →
            t.Encloses c.context m) := by
  obtain ⟨p, how, hrun, hcourse⟩ := run_course th t start hne htimed
  have hsound := sound_opening (t := t) horder
  have hnodup : ((opening t operation.members.toList).flatMap fun q => q.invocations).Nodup := by
    rw [flatMap_opening]
    exact horder.nodup (CallTree.nodup_depthFirst t start)
  have hlowest := (hcourse.sound hsound).lowest
  refine ⟨p.toCluster, by rw [cluster, hrun]; rfl, hlowest, ?_⟩
  constructor
  · intro hlca
    exact hcourse.encloses_place hnodup hsound hlca.common
  · intro hplaces
    refine ⟨hcourse.covers ?_ hplaces (Encloses.refl _), hlowest⟩
    intro q hq _ hq' x hx
    obtain ⟨id, -, rfl⟩ := List.mem_map.mp hq
    rw [List.mem_singleton.mp hx]
    exact hq'

def bentCalls : CallTree.Builder :=
  CallTree.Builder.grow (.ofRoot (Call.timed 1 1000.0 0.0))
    [(0, Call.timed 2 600.0 0.0), (1, Call.timed 3 300.0 0.0), (2, Call.timed 7 100.0 100.0),
      (1, Call.timed 7 100.0 100.0), (0, Call.timed 7 100.0 100.0)]

/-- The last of three equal calls lies beside the call under which the first two meet, and the
second one is nearer to that call than the first one. -/
def bent : CallTree where
  nodes := bentCalls.nodes
  consistent := bentCalls.consistent
  nonempty := by decide +kernel

def bentOperation : Aggregate :=
  ⟨⟨7, none, none⟩, #[⟨3⟩, ⟨4⟩, ⟨5⟩], #[100.0, 100.0, 100.0], 300.0, 300.0⟩

theorem bent_context_iff :
    bentOperation.members.toList ≠ [] ∧
      (∀ id ∈ bentOperation.members.toList, bent.Timed id) ∧
      bentOperation.members.toList.Sublist ((bent.depthFirst ⟨0⟩).map Prod.fst) ∧
      ∃ c, cluster .default bent ⟨0⟩ bentOperation = .ok c ∧
        (∀ b, (∀ x ∈ c.invocations, bent.Encloses b x) → bent.Encloses b c.context) ∧
        (bent.IsLowestCommonAncestor c.context c.invocations ↔
          ∀ parts ∈ (history .default bent ⟨0⟩ bentOperation).dropLast, ∀ q m,
            JoinedAt bent (bent.depthFirst ⟨0⟩) parts q m → q.invocations ⊆ c.invocations →
              bent.Encloses c.context m) := by
  have hne : bentOperation.members.toList ≠ [] := by decide
  have htimed : ∀ id ∈ bentOperation.members.toList, bent.Timed id := by decide +kernel
  have horder : bentOperation.members.toList.Sublist ((bent.depthFirst ⟨0⟩).map Prod.fst) := by
    decide +kernel
  exact ⟨hne, htimed, horder, cluster_context_isLowest_iff .default bent ⟨0⟩ bentOperation
    hne htimed horder⟩

/-- The three calls are joined under the second one's caller, which does not enclose the third. -/
theorem bent_context_not_lowest :
    bentOperation.members.toList ≠ [] ∧
      (∀ id ∈ bentOperation.members.toList, bent.Timed id) ∧
      bentOperation.members.toList.Sublist ((bent.depthFirst ⟨0⟩).map Prod.fst) ∧
      ∃ c, cluster .default bent ⟨0⟩ bentOperation = .ok c ∧
        c.invocations = [⟨3⟩, ⟨4⟩, ⟨5⟩] ∧ c.context = ⟨1⟩ ∧
        ¬ bent.IsLowestCommonAncestor c.context c.invocations := by
  refine ⟨by decide, by decide +kernel, by decide +kernel, ?_⟩
  have hrun : (cluster .default bent ⟨0⟩ bentOperation).toOption.map
      (fun c => (c.invocations, c.context)) = some ([⟨3⟩, ⟨4⟩, ⟨5⟩], ⟨1⟩) := by decide +kernel
  cases hc : cluster .default bent ⟨0⟩ bentOperation with
  | error e =>
    rw [hc] at hrun
    cases hrun
  | ok c =>
    rw [hc] at hrun
    simp only [Except.toOption, Option.map_some, Option.some.injEq, Prod.mk.injEq] at hrun
    obtain ⟨hinv, hctx⟩ := hrun
    refine ⟨c, rfl, hinv, hctx, ?_⟩
    intro h
    have h5 := h.common ⟨5⟩ (by rw [hinv]; decide)
    rw [hctx] at h5
    revert h5
    decide +kernel

end Clustering
end SlowRequest
