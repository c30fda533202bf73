import SlowRequest.Proofs.Diagnosis.Stages
namespace SlowRequest

private theorem contains_descend {t : CallTree} {baseline : Float} {id : NodeId}
    (h : t.contains id) :
    t.contains (descend t baseline id) := by
  fun_induction descend t baseline id with
  | case1 id child hchild ih =>
    exact ih (CallTree.contains_of_parent? (CallTree.mem_children.mp (heavyChild?_mem hchild)))
  | case2 id _ => exact h

theorem contains_globalContext (t : CallTree) (baseline : Float) :
    t.contains (globalContext t baseline) :=
  contains_descend (CallTree.contains_iff.mpr t.nonempty)

/-- A cluster below a call: its context and its calls are, and a call alone is its own context. -/
structure Cluster.Below (t : CallTree) (start : NodeId) (c : Cluster) : Prop where
  context : t.Encloses start c.context
  invocations : ∀ id ∈ c.invocations, t.Encloses start id
  alone : ∀ id, c.invocations = [id] → c.context = id

private theorem Clustering.run_timed (th : Thresholds) {t : CallTree} {start : NodeId}
    {operation : Aggregate} (h : operation.Gathers t (timedCalls t start)) :
    ∃ p how, run th t start operation = .ok (p, how) ∧ p.toCluster.Timed t ∧
      p.toCluster.Below t start := by
  have htimed : ∀ id ∈ operation.members.toList, t.Timed id :=
    fun id hid => timed_of_mem_timedCalls (h.inOrder.subset hid)
  obtain ⟨p, how, hrun, hcourse⟩ := run_course th t start h.nonempty htimed
  have hsound := hcourse.sound (sound_opening (h.inOrder.trans (timedCalls_sublist t start)))
  have hmembers : p.invocations ⊆ operation.members.toList := by
    rw [← flatMap_opening t operation.members.toList]
    exact hcourse.subset
  obtain ⟨x, rest, hx, hencloses⟩ := hsound.leads
  have hmem : x ∈ p.invocations := by
    rw [hx]
    exact List.mem_cons_self
  refine ⟨p, how, hrun, ⟨?_, List.ne_nil_of_mem hmem, fun id hid => htimed id (hmembers hid)⟩,
    hsound.below, ?_, ?_⟩
  · exact hencloses.contains (htimed x (hmembers hmem)).contains
  · intro id hid
    have hcall := (timedCalls_sublist t start).subset (h.inOrder.subset (hmembers hid))
    exact (CallTree.mem_map_depthFirst.mp hcall).2
  · intro id hid
    have hbelow : ∀ y ∈ p.invocations, t.Encloses id y := by
      intro y hy
      rw [hid] at hy
      rw [List.mem_singleton.mp hy]
      exact CallTree.Encloses.refl id
    have hsame : id = x := by
      rw [hid] at hx
      exact (List.cons.inj hx).1
    rw [← hsame] at hencloses
    exact hencloses.antisymm (hsound.lowest id hbelow)

def Cluster.isStatement (t : CallTree) (c : Cluster) : Bool :=
  match c.invocations with
  | [only] => (t.get? only).any Node.hasSql
  | _ => false

namespace Binding

variable {b : Binding Finding} {t : CallTree} {c : Cluster}

theorem tree_of_root (h : b.root = .request t) : b.tree = .ok t := by
  rw [tree, h]

theorem node_of_get? {tag : Tag} {id : NodeId} (h : b.get? tag = some (.node id)) :
    b.node tag = .ok id := by
  rw [node, require_of_get? h]
  rfl

private theorem aggregate_of_get? {tag : Tag} {a : Aggregate}
    (h : b.get? tag = some (.aggregate a)) :
    b.aggregate tag = .ok a := by
  rw [aggregate, require_of_get? h]
  rfl

private theorem cluster_of_get? {tag : Tag} (h : b.get? tag = some (.cluster c)) :
    b.cluster tag = .ok c := by
  rw [cluster, require_of_get? h]
  rfl

def ofContext (t : CallTree) (c : Cluster) (vars : Variables) : Binding Finding :=
  ⟨.request t, [(Tag.problemContext, some (.cluster c))], vars⟩

private theorem isSingleDatabaseCall_ofContext (t : CallTree) (c : Cluster) (vars : Variables) :
    isSingleDatabaseCall (ofContext t c vars) = c.isStatement t := by
  rw [isSingleDatabaseCall, tree_of_root rfl, ofContext, get?_here]
  rfl

private theorem causeFor_ofContext
    {rootCause : CallTree → Cluster → Except DiagnosisError Aggregate}
    {a : Aggregate} (vars : Variables) (h : rootCause t c = .ok a) :
    causeFor rootCause (ofContext t c vars) = .ok a := by
  have hget : (ofContext t c vars).get? Tag.problemContext = some (.cluster c) := get?_here
  rw [causeFor, tree_of_root rfl, cluster_of_get? hget]
  simp only [ofRule, Except.mapError, bind, Except.bind]
  rw [h]

end Binding

variable {t : CallTree} {baseline : Float} {f : FactForest Finding} {id : FactId}

def diagnosisOrder [NaNSums] (th : Thresholds) : List (ScheduledRule Finding DiagnosisError) :=
  [⟨globalContextRule, Tag.root⟩, ⟨timeWastingOperationsRule th, Tag.globalContext⟩,
    ⟨problemContextRule th, Tag.operations⟩, ⟨problemCauseRule th, Tag.problemContext⟩,
    ⟨problemCauseNPlusOneRule th, Tag.problemContext⟩, ⟨causeStructureRule th, Tag.problemCause⟩,
    ⟨causeStructureNPlusOneRule, Tag.problemCauseNPlusOne⟩]

/-- The rule looks for the cause of problem contexts that are, or that are not, one SQL call. -/
structure ScheduledRule.Seeks (r : ScheduledRule Finding DiagnosisError) (statement : Bool)
    (rootCause : CallTree → Cluster → Except DiagnosisError Aggregate) : Prop where
  inputs : r.descriptor.inputs = [.needed Tag.problemContext]
  parameters : r.descriptor.parameters = []
  condition : ∀ b, r.condition b = (isSingleDatabaseCall b == statement)
  action : ∀ b, r.action b = (causeFor rootCause b).map fun cause => .single (.aggregate cause)

theorem TimeWastingOperations.action_of_operations [NaNSums] {th : Thresholds}
    {b : Binding Finding} {context : NodeId} {operations : List Aggregate}
    (hroot : b.root = .request t)
    (hcontext : b.get? Tag.globalContext = some (.node context))
    (h : timeWastingOperations th t context = .ok operations) :
    (timeWastingOperationsRule th).action b = .ok (.multiple (operations.map .aggregate)) := by
  have hfindings : findings th b = .ok (context, operations) := by
    rw [findings, Binding.tree_of_root hroot, Binding.node_of_get? hcontext]
    simp only [ofRule, Except.mapError, bind, Except.bind, h]
    rfl
  simp only [timeWastingOperationsRule, hfindings]
  rfl

theorem seeks_problemCauseRule (th : Thresholds) :
    ScheduledRule.Seeks ⟨problemCauseRule th, Tag.problemContext⟩ false
      (ProblemCause.rootCause th) where
  inputs := rfl
  parameters := rfl
  condition b := by
    change (!isSingleDatabaseCall b) = (isSingleDatabaseCall b == false)
    simp
  action _ := rfl

theorem seeks_problemCauseNPlusOneRule (th : Thresholds) :
    ScheduledRule.Seeks ⟨problemCauseNPlusOneRule th, Tag.problemContext⟩ true
      (NPlusOne.rootCause th) where
  inputs := rfl
  parameters := rfl
  condition b := by
    change isSingleDatabaseCall b = (isSingleDatabaseCall b == true)
    simp
  action _ := rfl

namespace Staged

theorem fire_globalContext (hf : Staged t baseline f) (hid : id ∈ f.ids Tag.root) :
    ScheduledRule.fireAt ⟨globalContextRule, Tag.root⟩ (baselineOnly baseline) f id =
      .ok [.node (globalContext t baseline)] := by
  rw [ScheduledRule.fireAt_of_finds [(Tag.root, .request t)] hf.root rfl
    (List.forall_mem_singleton.mpr (hf.finds_root hid))]
  exact ScheduledRule.fireWith_of_action
    (.single (.node (globalContext t baseline))) rfl rfl rfl rfl (fun _ => Nat.le_refl 1)

private theorem fire_operations [NaNSums] (th : Thresholds) (hf : Staged t baseline f)
    (hid : id ∈ f.ids Tag.globalContext) :
    ∃ operations : List Aggregate,
      ScheduledRule.fireAt ⟨timeWastingOperationsRule th, Tag.globalContext⟩
        (baselineOnly baseline) f id = .ok (operations.map .aggregate) ∧
      ∀ a ∈ operations, a.Gathers t (timedCalls t (globalContext t baseline)) := by
  obtain ⟨operations, hoperations, hall⟩ :=
    timeWastingOperations_ok th (contains_globalContext t baseline)
  refine ⟨operations, ?_, hall⟩
  rw [ScheduledRule.fireAt_of_finds
    [(Tag.globalContext, .node (globalContext t baseline))] hf.root rfl
    (List.forall_mem_singleton.mpr (hf.hangs_globalContext hid).finds)]
  exact ScheduledRule.fireWith_of_action (.multiple (operations.map .aggregate)) rfl rfl
    (TimeWastingOperations.action_of_operations rfl Binding.get?_here hoperations) rfl
    (fun h => by cases h)

theorem fire_problemContext (th : Thresholds) (hf : Staged t baseline f)
    (hid : id ∈ f.ids Tag.operations) :
    ∃ c, ScheduledRule.fireAt ⟨problemContextRule th, Tag.operations⟩ (baselineOnly baseline) f id =
        .ok [.cluster c] ∧ c.Timed t ∧ c.Below t (globalContext t baseline) := by
  obtain ⟨a, ha, hoperation, hcontext⟩ := hf.finds_operation hid
  obtain ⟨p, how, hrun, htimed, hbelow⟩ := Clustering.run_timed th ha
  refine ⟨p.toCluster, ?_, htimed, hbelow⟩
  rw [ScheduledRule.fireAt_of_finds
    [(Tag.globalContext, .node (globalContext t baseline)),
      (Tag.operations, .aggregate a)] hf.root rfl
    (List.forall_mem_cons.mpr ⟨hcontext, List.forall_mem_singleton.mpr hoperation⟩)]
  refine ScheduledRule.fireWith_of_action (.single (.cluster p.toCluster))
    rfl rfl ?_ rfl (fun _ => Nat.le_refl 1)
  have hfindings : Clustering.findings th
      ⟨.request t, [(Tag.globalContext, some (.node (globalContext t baseline))),
        (Tag.operations, some (.aggregate a))], baselineOnly baseline⟩ = .ok (p, how) := by
    rw [Clustering.findings, Binding.tree_of_root rfl, Binding.node_of_get? Binding.get?_here,
      Binding.aggregate_of_get? ((Binding.get?_next (by decide)).trans Binding.get?_here)]
    simp only [ofRule, Except.mapError, bind, Except.bind, hrun]
  simp only [problemContextRule, List.map_cons, List.map_nil, hfindings]
  rfl

/-- A rule that looks for the cause of clusters of the one or the other kind writes it for these
and nothing for those. -/
theorem fire_seeking {r : ScheduledRule Finding DiagnosisError} {statement : Bool}
    {rootCause : CallTree → Cluster → Except DiagnosisError Aggregate} {c : Cluster}
    {a : Aggregate} (hf : Staged t baseline f) (hseeks : r.Seeks statement rootCause)
    (ha : rootCause t c = .ok a) (hcluster : f.Finds id Tag.problemContext (.cluster c)) :
    r.fireAt (baselineOnly baseline) f id =
      .ok (if c.isStatement t = statement then [.aggregate a] else []) := by
  rw [ScheduledRule.fireAt_of_finds [(Tag.problemContext, .cluster c)] hf.root hseeks.inputs
    (List.forall_mem_singleton.mpr hcluster)]
  change r.fireWith (Binding.ofContext t c (baselineOnly baseline)) = _
  have hvars : r.missingVariable? (Binding.ofContext t c (baselineOnly baseline)) = none := by
    rw [ScheduledRule.missingVariable?, hseeks.parameters]
    rfl
  have hcondition := hseeks.condition (Binding.ofContext t c (baselineOnly baseline))
  rw [Binding.isSingleDatabaseCall_ofContext] at hcondition
  by_cases hkind : c.isStatement t = statement
  · rw [if_pos hkind]
    refine ScheduledRule.fireWith_of_action (.single (.aggregate a)) hvars ?_ ?_ rfl
      (fun _ => Nat.le_refl 1)
    · rw [hcondition, hkind, beq_self_eq_true]
    · rw [hseeks.action, Binding.causeFor_ofContext (baselineOnly baseline) ha]
      rfl
  · rw [if_neg hkind]
    apply ScheduledRule.fireWith_of_refused hvars
    rw [hcondition, beq_eq_false_iff_ne]
    exact hkind

theorem fire_problemCause (th : Thresholds) (hf : Staged t baseline f) {c : Cluster}
    (hc : c.Timed t) (hcluster : f.Finds id Tag.problemContext (.cluster c)) :
    ∃ a, a.Within t ∧
      ScheduledRule.fireAt ⟨problemCauseRule th, Tag.problemContext⟩ (baselineOnly baseline) f id =
        .ok (if c.isStatement t = false then [.aggregate a] else []) := by
  obtain ⟨a, ha, hwithin, -⟩ := ProblemCause.rootCause_ok th hc
  exact ⟨a, hwithin, hf.fire_seeking (seeks_problemCauseRule th) ha hcluster⟩

theorem fire_problemCauseNPlusOne (th : Thresholds) (hf : Staged t baseline f) {c : Cluster}
    (hc : c.Timed t) (hcluster : f.Finds id Tag.problemContext (.cluster c)) :
    ∃ a, a.Within t ∧
      ScheduledRule.fireAt ⟨problemCauseNPlusOneRule th, Tag.problemContext⟩
        (baselineOnly baseline) f id =
          .ok (if c.isStatement t = true then [.aggregate a] else []) := by
  obtain ⟨a, call, ha, hwithin, -⟩ := NPlusOne.rootCause_ok th hc
  exact ⟨a, hwithin, hf.fire_seeking (seeks_problemCauseNPlusOneRule th) ha hcluster⟩

theorem fire_causeStructure (th : Thresholds) (hf : Staged t baseline f)
    (hid : id ∈ f.ids Tag.problemCause) :
    ∃ s, ScheduledRule.fireAt ⟨causeStructureRule th, Tag.problemCause⟩
      (baselineOnly baseline) f id = .ok [.causeStructure s] := by
  obtain ⟨a, c, ha, hcause, hcluster⟩ :=
    hf.finds_cause .problemCause (by decide) hid
  obtain ⟨s, hs⟩ := Recurrence.classify_ok (t := t) th c.context ha.nonempty
  refine ⟨s, ?_⟩
  rw [ScheduledRule.fireAt_of_finds
    [(Tag.problemContext, .cluster c), (Tag.problemCause, .aggregate a)] hf.root rfl
    (List.forall_mem_cons.mpr ⟨hcluster, List.forall_mem_singleton.mpr hcause⟩)]
  refine ScheduledRule.fireWith_of_action (.single (.causeStructure s)) rfl rfl ?_ rfl
    (fun _ => Nat.le_refl 1)
  have hfindings : Recurrence.findings th
      ⟨.request t, [(Tag.problemContext, some (.cluster c)),
        (Tag.problemCause, some (.aggregate a))], baselineOnly baseline⟩ = .ok s := by
    rw [Recurrence.findings, Binding.tree_of_root rfl, Binding.cluster_of_get? Binding.get?_here,
      Binding.aggregate_of_get? ((Binding.get?_next (by decide)).trans Binding.get?_here)]
    simp only [ofRule, Except.mapError, bind, Except.bind, hs]
  simp only [causeStructureRule, List.map_cons, List.map_nil, hfindings]
  rfl

theorem fire_causeStructureNPlusOne (hf : Staged t baseline f)
    (hid : id ∈ f.ids Tag.problemCauseNPlusOne) :
    ∃ s, ScheduledRule.fireAt ⟨causeStructureNPlusOneRule, Tag.problemCauseNPlusOne⟩
      (baselineOnly baseline) f id = .ok [.causeStructure s] := by
  obtain ⟨a, c, -, hcause, hcluster⟩ :=
    hf.finds_cause .problemCauseNPlusOne (by decide) hid
  refine ⟨Recurrence.classifyNPlusOne a, ?_⟩
  rw [ScheduledRule.fireAt_of_finds
    [(Tag.problemContext, .cluster c), (Tag.problemCauseNPlusOne, .aggregate a)]
    hf.root rfl
    (List.forall_mem_cons.mpr ⟨hcluster, List.forall_mem_singleton.mpr hcause⟩)]
  refine ScheduledRule.fireWith_of_action
    (.single (.causeStructure (Recurrence.classifyNPlusOne a))) rfl rfl ?_ rfl
    (fun _ => Nat.le_refl 1)
  have haggregate : Binding.aggregate ⟨.request t, [(Tag.problemContext, some (.cluster c)),
      (Tag.problemCauseNPlusOne, some (.aggregate a))], baselineOnly baseline⟩
      Tag.problemCauseNPlusOne = .ok a :=
    Binding.aggregate_of_get? ((Binding.get?_next (by decide)).trans Binding.get?_here)
  simp only [causeStructureNPlusOneRule, List.map_cons, List.map_nil, haggregate]
  rfl

end Staged

private theorem keeps_staged {r : ScheduledRule Finding DiagnosisError} (stage above : Stage)
    (habove : above ∈ stage.under) (hanchor : r.anchor = above.tag)
    (houtput : r.descriptor.output = stage.tag)
    (hfires : ∀ f, Staged t baseline f → ∀ id ∈ f.ids r.anchor, ∃ values,
      r.fireAt (baselineOnly baseline) f id = .ok values ∧
        ∀ v ∈ values, stage.Fits t baseline v) :
    r.Keeps (baselineOnly baseline) (Staged t baseline) := by
  intro f hf id hid
  obtain ⟨values, hvalues, hfits⟩ := hfires f hf id hid
  refine ⟨values, hvalues, ?_⟩
  rw [houtput]
  rw [hanchor] at hid
  exact hf.insertAll habove hid hfits

/-- No rule of a diagnosis ever fails, and all of them keep the stages. -/
theorem diagnosisOrder_keeps [NaNSums] (th : Thresholds) (t : CallTree) (baseline : Float) :
    ∀ r ∈ diagnosisOrder th, r.Keeps (baselineOnly baseline) (Staged t baseline) := by
  simp only [diagnosisOrder, List.forall_mem_cons, List.not_mem_nil, false_implies, implies_true,
    and_true]
  refine ⟨?_, ?_, ?_, ?_, ?_, ?_, ?_⟩
  · apply keeps_staged .globalContext .root (by decide) rfl rfl
    intro f hf id hid
    exact ⟨_, hf.fire_globalContext hid, by simp [Stage.Fits]⟩
  · apply keeps_staged .operations .globalContext (by decide) rfl rfl
    intro f hf id hid
    obtain ⟨operations, hfire, hall⟩ := hf.fire_operations th hid
    refine ⟨_, hfire, ?_⟩
    intro v hv
    obtain ⟨a, ha, rfl⟩ := List.mem_map.mp hv
    exact ⟨a, rfl, hall a ha⟩
  · apply keeps_staged .problemContext .operations (by decide) rfl rfl
    intro f hf id hid
    obtain ⟨c, hfire, hc, -⟩ := hf.fire_problemContext th hid
    exact ⟨_, hfire, by simpa [Stage.Fits] using hc⟩
  · apply keeps_staged .problemCause .problemContext (by decide) rfl rfl
    intro f hf id hid
    obtain ⟨c, p, hhangs, hc, -⟩ := hf.hangs_problemContext hid
    obtain ⟨a, ha, hfire⟩ := hf.fire_problemCause th hc hhangs.finds
    refine ⟨_, hfire, ?_⟩
    intro v hv
    split at hv
    · exact ⟨a, List.mem_singleton.mp hv, ha⟩
    · cases hv
  · apply keeps_staged .problemCauseNPlusOne .problemContext (by decide) rfl rfl
    intro f hf id hid
    obtain ⟨c, p, hhangs, hc, -⟩ := hf.hangs_problemContext hid
    obtain ⟨a, ha, hfire⟩ := hf.fire_problemCauseNPlusOne th hc hhangs.finds
    refine ⟨_, hfire, ?_⟩
    intro v hv
    split at hv
    · exact ⟨a, List.mem_singleton.mp hv, ha⟩
    · cases hv
  · apply keeps_staged .causeStructure .problemCause (by decide) rfl rfl
    intro f hf id hid
    obtain ⟨s, hfire⟩ := hf.fire_causeStructure th hid
    exact ⟨_, hfire, by simp [Stage.Fits]⟩
  · apply keeps_staged .causeStructure .problemCauseNPlusOne (by decide) rfl rfl
    intro f hf id hid
    obtain ⟨s, hfire⟩ := hf.fire_causeStructureNPlusOne hid
    exact ⟨_, hfire, by simp [Stage.Fits]⟩

end SlowRequest
