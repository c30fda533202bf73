import SlowRequest.Proofs.CallTree.Renaming
import SlowRequest.Proofs.Engine.Translation
import SlowRequest.Proofs.Diagnosis.Branches
/-!
# Diagnoses of renamed trees

No rule looks at more of a name than whether two of them are the same. So a diagnosis of a renamed
tree writes the same facts, up to the names in the keys of its aggregates.
-/
namespace SlowRequest

variable {m : Renaming}

namespace Aggregate

def renamed (m : Renaming) (a : Aggregate) : Aggregate := { a with key := m.key a.key }

@[simp] theorem members_renamed (a : Aggregate) : (a.renamed m).members = a.members := rfl

@[simp] theorem exclusiveTime_renamed (a : Aggregate) :
    (a.renamed m).exclusiveTime = a.exclusiveTime := rfl

@[simp] theorem size_renamed (a : Aggregate) : (a.renamed m).size = a.size := rfl

@[simp] theorem rank_renamed [NaNSums] (a : Aggregate) : (a.renamed m).rank = a.rank := rfl

@[simp] theorem isSql_renamed (a : Aggregate) : (a.renamed m).key.isSql = a.key.isSql :=
  Option.isSome_map

private theorem push_renamed {n n' : Node} (h : n.Renamed m n') (a : Aggregate) (id : NodeId) :
    (a.renamed m).push id n' = (a.push id n).renamed m := by
  simp only [push, renamed, h.exclusiveTime, h.duration]

private theorem empty_renamed {n n' : Node} (h : n.Renamed m n') :
    empty (.of n') = (empty (.of n)).renamed m := by
  rw [h.key]
  rfl

private theorem insert_renamed {n n' : Node} (h : n.Renamed m n') (id : NodeId)
    (groups : List Aggregate) :
    insert id n' (groups.map (renamed m)) = (insert id n groups).map (renamed m) := by
  induction groups with
  | nil =>
    change [(empty (.of n')).push id n'] = [((empty (.of n)).push id n).renamed m]
    rw [empty_renamed h, push_renamed h]
  | cons a rest ih =>
    have hkey : (a.renamed m).key = .of n' ↔ a.key = .of n := by
      rw [h.key]
      exact m.key_injective.eq_iff
    rw [List.map_cons, insert, insert]
    by_cases hsame : a.key = .of n
    · rw [if_pos (hkey.mpr hsame), if_pos hsame, List.map_cons, push_renamed h]
    · rw [if_neg fun hk => hsame (hkey.mp hk), if_neg hsame, List.map_cons, ih]

end Aggregate

namespace CallTree.Renamed

variable {t t' : CallTree}

private theorem diagnosedNode_cases (h : t.Renamed m t') (id : NodeId) :
    (∃ e, t.diagnosedNode id = .error e ∧ t'.diagnosedNode id = .error e) ∨
      ∃ n n', t.diagnosedNode id = .ok n ∧ t'.diagnosedNode id = .ok n' ∧ n.Renamed m n' := by
  rw [CallTree.diagnosedNode, CallTree.diagnosedNode]
  rcases h.node_cases id with ⟨e, hn, hn'⟩ | ⟨n, n', hn, hn', hnode⟩
  · rw [hn, hn']
    exact .inl ⟨_, rfl, rfl⟩
  · rw [hn, hn']
    exact .inr ⟨n, n', rfl, rfl, hnode⟩

/-! ## The global context -/

theorem longestChild (h : t.Renamed m t') (ids : List NodeId) (best : Option NodeId)
    (longest : Float) :
    SlowRequest.longestChild t' ids best longest = SlowRequest.longestChild t ids best longest := by
  induction ids generalizing best longest with
  | nil => rfl
  | cons id ids ih =>
    rw [SlowRequest.longestChild, SlowRequest.longestChild]
    rcases h.get?_cases id with ⟨hn, hn'⟩ | ⟨n, n', hn, hn', hnode⟩
    · simp only [hn, hn', ih]
    · simp only [hn, hn', hnode.duration, ih]

theorem heavyChild? (h : t.Renamed m t') (baseline : Float) (id : NodeId) :
    SlowRequest.heavyChild? t' baseline id = SlowRequest.heavyChild? t baseline id := by
  rw [SlowRequest.heavyChild?, SlowRequest.heavyChild?, h.children, h.longestChild]

theorem descend (h : t.Renamed m t') (baseline : Float) (id : NodeId) :
    SlowRequest.descend t' baseline id = SlowRequest.descend t baseline id := by
  fun_induction SlowRequest.descend t baseline id with
  | case1 id child hchild ih =>
    rw [SlowRequest.descend]
    split
    · rename_i other hother
      rw [h.heavyChild?, hchild] at hother
      cases hother
      exact ih
    · rename_i hnone
      rw [h.heavyChild?, hchild] at hnone
      cases hnone
  | case2 id hnone =>
    rw [SlowRequest.descend]
    split
    · rename_i other hother
      rw [h.heavyChild?, hnone] at hother
      cases hother
    · rfl

theorem globalContext (h : t.Renamed m t') (baseline : Float) :
    SlowRequest.globalContext t' baseline = SlowRequest.globalContext t baseline :=
  h.descend baseline t.root

/-! ## Operations -/

theorem collect (h : t.Renamed m t') (ids : List NodeId) (groups : List Aggregate) :
    Aggregate.collect t' ids (groups.map (Aggregate.renamed m)) =
      (Aggregate.collect t ids groups).map (List.map (Aggregate.renamed m)) := by
  induction ids generalizing groups with
  | nil => rfl
  | cons id ids ih =>
    rw [Aggregate.collect, Aggregate.collect]
    rcases h.node_cases id with ⟨e, hn, hn'⟩ | ⟨n, n', hn, hn', hnode⟩
    · rw [hn, hn']
      rfl
    · rw [hn, hn']
      change Aggregate.collect t' ids (Aggregate.insert id n' _) = _
      rw [Aggregate.insert_renamed hnode, ih]
      rfl

theorem group (h : t.Renamed m t') (ids : List NodeId) :
    Aggregate.group t' ids = (Aggregate.group t ids).map (List.map (Aggregate.renamed m)) := by
  rw [Aggregate.group_eq_collect, Aggregate.group_eq_collect]
  exact h.collect ids []

theorem timedCalls (h : t.Renamed m t') (start : NodeId) :
    SlowRequest.timedCalls t' start = SlowRequest.timedCalls t start := by
  rw [SlowRequest.timedCalls, SlowRequest.timedCalls, h.depthFirst]
  exact List.filter_congr fun id _ => h.any_get? (fun _ _ hnode => hnode.hasExclusive) id

theorem ranking [NaNSums] (h : t.Renamed m t') (start : NodeId) :
    SlowRequest.ranking t' start =
      (SlowRequest.ranking t start).map (List.map (Aggregate.renamed m)) := by
  rw [SlowRequest.ranking, SlowRequest.ranking, h.timedCalls, h.group]
  cases Aggregate.group t (SlowRequest.timedCalls t start) with
  | error e => rfl
  | ok groups =>
    have hsort := List.map_mergeSort (f := Aggregate.renamed m) (l := groups)
      (r := fun a b => decide (b.rank ≤ a.rank)) (s := fun a b => decide (b.rank ≤ a.rank))
      (fun _ _ _ _ => rfl)
    exact congrArg Except.ok hsort.symm

end CallTree.Renamed

private theorem leading_renamed (limit : Float) (minCalls : Nat) (sum : Float)
    (operations : List Aggregate) :
    leading limit minCalls sum (operations.map (Aggregate.renamed m)) =
      (leading limit minCalls sum operations).map (Aggregate.renamed m) := by
  induction operations generalizing sum with
  | nil => rfl
  | cons a rest ih =>
    rw [List.map_cons, leading, leading]
    simp only [Aggregate.size_renamed, Aggregate.exclusiveTime_renamed, ih]
    split <;> rfl

namespace CallTree.Renamed

variable {t t' : CallTree}

theorem timeWastingOperations [NaNSums] (h : t.Renamed m t') (th : Thresholds) (context : NodeId) :
    SlowRequest.timeWastingOperations th t' context =
      (SlowRequest.timeWastingOperations th t context).map (List.map (Aggregate.renamed m)) := by
  rw [SlowRequest.timeWastingOperations, SlowRequest.timeWastingOperations]
  rcases h.node_cases context with ⟨e, hn, hn'⟩ | ⟨n, n', hn, hn', hnode⟩
  · rw [hn, hn']
    rfl
  · rw [hn, hn', h.ranking]
    simp only [Except.mapError, bind, Except.bind, hnode.duration]
    cases SlowRequest.ranking t context with
    | error e => rfl
    | ok groups => exact congrArg Except.ok (leading_renamed _ _ _ groups)

/-! ## The problem context -/

theorem singles (h : t.Renamed m t') (ids : List NodeId) :
    Clustering.singles t' ids = Clustering.singles t ids := by
  induction ids with
  | nil => rfl
  | cons id ids ih =>
    rw [Clustering.singles, Clustering.singles]
    rcases h.diagnosedNode_cases id with ⟨e, hn, hn'⟩ | ⟨n, n', hn, hn', hnode⟩
    · rw [hn, hn']
      rfl
    · simp only [hn, hn', bind, Except.bind, hnode.measurement.isNone_timer?, hnode.exclusiveTime,
        ih]

theorem joinAll (h : t.Renamed m t') (runs : List (List Part)) :
    Part.joinAll t' runs = Part.joinAll t runs := by
  have hjoin : ∀ run, Part.join t' run = Part.join t run := by
    intro run
    match run with
    | [] => rfl
    | [p] => rfl
    | p :: q :: ps => simp only [Part.join, h.ancestor]
  induction runs with
  | nil => rfl
  | cons run runs ih => rw [Part.joinAll, Part.joinAll, hjoin, ih]

theorem settle (h : t.Renamed m t') (walk : List (NodeId × Nat)) (significance : Float)
    (rounds round : Nat) (parts : List Part) :
    Clustering.settle t' walk significance rounds round parts =
      Clustering.settle t walk significance rounds round parts := by
  induction rounds generalizing round parts with
  | zero => rfl
  | succ rounds ih =>
    have hmerge : Part.mergeClosest t' walk parts = Part.mergeClosest t walk parts := by
      simp only [Part.mergeClosest, h.joinAll]
    simp only [Clustering.settle, hmerge, ih]

theorem clustering (h : t.Renamed m t') (th : Thresholds) (context : NodeId)
    (operation : Aggregate) :
    Clustering.run th t' context (operation.renamed m) =
      Clustering.run th t context operation := by
  simp only [Clustering.run, Aggregate.members_renamed, h.singles, h.depthFirst, h.settle]

/-! ## The problem cause -/

theorem greedy (h : t.Renamed m t') (limit : Float) (ids : List NodeId) (cause : Aggregate) :
    Attribution.greedy t' limit ids (cause.renamed m) =
      (Attribution.greedy t limit ids cause).map fun (cause, left) => (cause.renamed m, left) := by
  induction ids generalizing cause with
  | nil => rfl
  | cons id ids ih =>
    have hsame : (cause.renamed m).size = 0 ∨ (cause.renamed m).exclusiveTime < limit ↔
        cause.size = 0 ∨ cause.exclusiveTime < limit := Iff.rfl
    rw [Attribution.greedy, Attribution.greedy]
    by_cases hmore : cause.size = 0 ∨ cause.exclusiveTime < limit
    · rw [if_pos (hsame.mpr hmore), if_pos hmore]
      rcases h.diagnosedNode_cases id with ⟨e, hn, hn'⟩ | ⟨n, n', hn, hn', hnode⟩
      · rw [hn, hn']
        rfl
      · simp only [hn, hn', bind, Except.bind, hnode.measurement.isNone_timer?,
          Aggregate.push_renamed hnode, ih]
        cases n.measurement.timer?.isNone with
        | true => rfl
        | false => rfl
    · rw [if_neg fun h => hmore (hsame.mp h), if_neg hmore]
      rfl

theorem extend (h : t.Renamed m t') (lower : Float) (ids : List NodeId) (cause : Aggregate) :
    Attribution.extend t' lower ids (cause.renamed m) =
      (Attribution.extend t lower ids cause).map (Aggregate.renamed m) := by
  induction ids generalizing cause with
  | nil => rfl
  | cons id ids ih =>
    rw [Attribution.extend, Attribution.extend]
    rcases h.diagnosedNode_cases id with ⟨e, hn, hn'⟩ | ⟨n, n', hn, hn', hnode⟩
    · rw [hn, hn']
      rfl
    · simp only [hn, hn', bind, Except.bind, hnode.exclusiveTime, Aggregate.push_renamed hnode, ih]
      split <;> rfl

theorem cause (h : t.Renamed m t') (th : Thresholds) (candidates : List NodeId)
    (contextDuration : Float) :
    Attribution.cause th t' candidates contextDuration =
      (Attribution.cause th t candidates contextDuration).map (Aggregate.renamed m) := by
  cases candidates with
  | nil => rfl
  | cons first rest =>
    rw [Attribution.cause, Attribution.cause]
    rcases h.diagnosedNode_cases first with ⟨e, hn, hn'⟩ | ⟨n, n', hn, hn', hnode⟩
    · rw [hn, hn']
      rfl
    · simp only [hn, hn', bind, Except.bind, Aggregate.empty_renamed hnode, h.greedy]
      cases Attribution.greedy t (th.proportion * contextDuration) (first :: rest)
          (.empty (.of n)) with
      | error e => rfl
      | ok taken =>
        obtain ⟨cause, left⟩ := taken
        have hlower : Attribution.lowerBound th.sigmaFactor (cause.renamed m) =
            Attribution.lowerBound th.sigmaFactor cause := rfl
        simp only [Except.map, Aggregate.size_renamed, hlower, h.extend]
        split <;> rfl

theorem problemCause (h : t.Renamed m t') (th : Thresholds) (c : Cluster) :
    ProblemCause.rootCause th t' c =
      (ProblemCause.rootCause th t c).map (Aggregate.renamed m) := by
  rw [ProblemCause.rootCause, ProblemCause.rootCause]
  rcases h.diagnosedNode_cases c.context with ⟨e, hn, hn'⟩ | ⟨n, n', hn, hn', hnode⟩
  · rw [hn, hn']
    rfl
  · simp only [hn, hn', bind, Except.bind, hnode.duration, h.cause]

theorem scope (h : t.Renamed m t') (c : Cluster) : NPlusOne.scope t' c = NPlusOne.scope t c := by
  rw [NPlusOne.scope, NPlusOne.scope]
  rcases h.diagnosedNode_cases c.context with ⟨e, hn, hn'⟩ | ⟨n, n', hn, hn', hnode⟩
  · rw [hn, hn']
  · simp only [hn, hn', bind, Except.bind, hnode.parent]

private theorem repeated_renamed (th : Thresholds) (groups : List Aggregate) :
    ((groups.map (Aggregate.renamed m)).filter fun a =>
        a.key.isSql && decide (th.minCallsNPlusOne < a.size)).flatMap
        (fun a => a.members.toList) =
      (groups.filter fun a => a.key.isSql && decide (th.minCallsNPlusOne < a.size)).flatMap
        (fun a => a.members.toList) := by
  rw [List.filter_map, List.flatMap_map]
  congr 1
  apply List.filter_congr
  intro a _
  rw [Function.comp_apply, Aggregate.isSql_renamed]
  rfl

private theorem children_of_diagnosedNode {id : NodeId} {n : Node}
    (h : t.diagnosedNode id = .ok n) :
    t.children id = n.children.toList := by
  rw [CallTree.diagnosedNode, CallTree.node] at h
  rw [CallTree.children]
  cases hn : t.get? id with
  | none =>
    rw [hn] at h
    cases h
  | some n' =>
    rw [hn] at h
    cases h
    rfl

theorem candidates (h : t.Renamed m t') (th : Thresholds) (scope : NodeId) (c : Cluster) :
    NPlusOne.candidates th t' scope c = NPlusOne.candidates th t scope c := by
  rw [NPlusOne.candidates, NPlusOne.candidates]
  rcases h.diagnosedNode_cases scope with ⟨e, hn, hn'⟩ | ⟨n, n', hn, hn', hnode⟩
  · rw [hn, hn']
    rfl
  · have hchildren : n'.children.toList = n.children.toList := by
      rw [← children_of_diagnosedNode hn, ← children_of_diagnosedNode hn', h.children]
    simp only [hn, hn', bind, Except.bind, hchildren, h.group]
    cases Aggregate.group t n.children.toList with
    | error e => rfl
    | ok groups => simp only [Except.map, repeated_renamed]

theorem problemCauseNPlusOne (h : t.Renamed m t') (th : Thresholds) (c : Cluster) :
    NPlusOne.rootCause th t' c = (NPlusOne.rootCause th t c).map (Aggregate.renamed m) := by
  rw [NPlusOne.rootCause, NPlusOne.rootCause, h.scope]
  simp only [h.candidates]
  cases NPlusOne.scope t c with
  | error e => rfl
  | ok scope =>
    simp only [bind, Except.bind]
    cases NPlusOne.candidates th t scope c with
    | error e => rfl
    | ok candidates =>
      rcases h.diagnosedNode_cases scope with ⟨e, hn, hn'⟩ | ⟨n, n', hn, hn', hnode⟩
      · rw [hn, hn']
        rfl
      · simp only [hn, hn', hnode.duration, h.cause]

/-! ## The cause structure -/

theorem classify (h : t.Renamed m t') (th : Thresholds) (context : NodeId) (cause : Aggregate) :
    Recurrence.classify th t' context (cause.renamed m) =
      Recurrence.classify th t context cause := by
  have hcovers : (fun id => (t'.get? id).any (cause.renamed m).key.covers) =
      fun id => (t.get? id).any cause.key.covers := by
    funext id
    exact h.any_get? (fun _ _ hnode => Renaming.covers_key hnode cause.key) id
  simp only [Recurrence.classify, Aggregate.isSql_renamed, Aggregate.size_renamed, hcovers,
    h.depthFirst]

end CallTree.Renamed

/-! ## The rules -/

namespace Finding

def renamed (m : Renaming) (t : CallTree) : Finding → Finding
  | request _ => .request t
  | node id => .node id
  | aggregate a => .aggregate (a.renamed m)
  | cluster c => .cluster c
  | causeStructure s => .causeStructure s

@[simp] theorem kind_renamed (t : CallTree) (v : Finding) : (v.renamed m t).kind = v.kind := by
  cases v <;> rfl

end Finding

namespace Binding

variable {t t' : CallTree} {b : Binding Finding}

private theorem tree_renamed (m : Renaming) (t' : CallTree) (h : b.root = .request t) :
    b.tree = .ok t ∧ (b.map (Finding.renamed m t')).tree = .ok t' := by
  have hroot : (b.map (Finding.renamed m t')).root = .request t' := by
    rw [map, h]
    rfl
  exact ⟨tree_of_root h, tree_of_root hroot⟩

private theorem node_renamed (b : Binding Finding) (tag : Tag) :
    (b.map (Finding.renamed m t)).node tag = b.node tag := by
  rw [node, node, require_map]
  cases b.require tag with
  | error e => rfl
  | ok v => cases v <;> rfl

private theorem aggregate_renamed (b : Binding Finding) (tag : Tag) :
    (b.map (Finding.renamed m t)).aggregate tag =
      (b.aggregate tag).map (Aggregate.renamed m) := by
  rw [aggregate, aggregate, require_map]
  cases b.require tag with
  | error e => rfl
  | ok v => cases v <;> rfl

private theorem cluster_renamed (b : Binding Finding) (tag : Tag) :
    (b.map (Finding.renamed m t)).cluster tag = b.cluster tag := by
  rw [cluster, cluster, require_map]
  cases b.require tag with
  | error e => rfl
  | ok v => cases v <;> rfl

end Binding

namespace CallTree.Renamed

variable {t t' : CallTree} {b : Binding Finding}

private theorem respects_globalContext (h : t.Renamed m t') :
    globalContextRule.Respects (Finding.renamed m t') (.request t) where
  condition _ _ := rfl
  action b hb := by
    have hbaseline : (b.map (Finding.renamed m t')).baseline = b.baseline := rfl
    obtain ⟨htree, htree'⟩ := Binding.tree_renamed m t' hb
    simp only [globalContextRule, htree, htree', hbaseline, bind, Except.bind, h.globalContext]
    cases b.baseline <;> rfl

private theorem operations_findings [NaNSums] (h : t.Renamed m t') (th : Thresholds)
    (hb : b.root = .request t) :
    TimeWastingOperations.findings th (b.map (Finding.renamed m t')) =
      (TimeWastingOperations.findings th b).map fun (context, operations) =>
        (context, operations.map (Aggregate.renamed m)) := by
  obtain ⟨htree, htree'⟩ := Binding.tree_renamed m t' hb
  rw [TimeWastingOperations.findings, TimeWastingOperations.findings, htree, htree',
    Binding.node_renamed]
  simp only [ofRule, Except.mapError, bind, Except.bind, h.timeWastingOperations]
  cases b.node Tag.globalContext with
  | error e => rfl
  | ok context =>
    dsimp only
    cases SlowRequest.timeWastingOperations th t context <;> rfl

private theorem respects_operations [NaNSums] (h : t.Renamed m t') (th : Thresholds) :
    (timeWastingOperationsRule th).Respects (Finding.renamed m t') (.request t) where
  condition _ _ := rfl
  action b hb := by
    simp only [timeWastingOperationsRule, h.operations_findings th hb]
    cases TimeWastingOperations.findings th b with
    | error e => rfl
    | ok found =>
      have hmap : (found.2.map (Aggregate.renamed m)).map Finding.aggregate =
          (found.2.map Finding.aggregate).map (Finding.renamed m t') := by
        rw [List.map_map, List.map_map]
        rfl
      simp only [Except.map, bind, Except.bind, hmap]
      rfl

private theorem clustering_findings (h : t.Renamed m t') (th : Thresholds)
    (hb : b.root = .request t) :
    Clustering.findings th (b.map (Finding.renamed m t')) = Clustering.findings th b := by
  obtain ⟨htree, htree'⟩ := Binding.tree_renamed m t' hb
  rw [Clustering.findings, Clustering.findings, htree, htree', Binding.node_renamed,
    Binding.aggregate_renamed]
  cases b.aggregate Tag.operations with
  | error e => rfl
  | ok operation => simp only [ofRule, Except.mapError, Except.map, bind, Except.bind, h.clustering]

private theorem respects_problemContext (h : t.Renamed m t') (th : Thresholds) :
    (problemContextRule th).Respects (Finding.renamed m t') (.request t) where
  condition _ _ := rfl
  action b hb := by
    simp only [problemContextRule, h.clustering_findings th hb]
    cases Clustering.findings th b <;> rfl

theorem isSingleDatabaseCall (h : t.Renamed m t') (hb : b.root = .request t) :
    SlowRequest.isSingleDatabaseCall (b.map (Finding.renamed m t')) =
      SlowRequest.isSingleDatabaseCall b := by
  obtain ⟨htree, htree'⟩ := Binding.tree_renamed m t' hb
  rw [SlowRequest.isSingleDatabaseCall, SlowRequest.isSingleDatabaseCall, htree, htree',
    Binding.get?_map]
  cases b.get? Tag.problemContext with
  | none => rfl
  | some v =>
    cases v with
    | cluster c =>
      have hsql := h.any_get? fun _ _ hnode => hnode.hasSql
      simp only [Option.map_some, Finding.renamed, hsql]
    | _ => rfl

theorem causeFor (hb : b.root = .request t)
    {rootCause : CallTree → Cluster → Except DiagnosisError Aggregate}
    (hcause : ∀ c, rootCause t' c = (rootCause t c).map (Aggregate.renamed m)) :
    SlowRequest.causeFor rootCause (b.map (Finding.renamed m t')) =
      (SlowRequest.causeFor rootCause b).map (Aggregate.renamed m) := by
  obtain ⟨htree, htree'⟩ := Binding.tree_renamed m t' hb
  rw [SlowRequest.causeFor, SlowRequest.causeFor, htree, htree', Binding.cluster_renamed]
  simp only [ofRule, Except.mapError, bind, Except.bind, hcause]
  cases b.cluster Tag.problemContext with
  | error e => rfl
  | ok c =>
    dsimp only
    cases rootCause t c <;> rfl

private theorem respects_problemCause (h : t.Renamed m t') (th : Thresholds) :
    (problemCauseRule th).Respects (Finding.renamed m t') (.request t) where
  condition b hb := congrArg not (h.isSingleDatabaseCall hb)
  action b hb := by
    simp only [problemCauseRule, causeFor hb (h.problemCause th)]
    cases SlowRequest.causeFor (ProblemCause.rootCause th) b <;> rfl

private theorem respects_problemCauseNPlusOne (h : t.Renamed m t') (th : Thresholds) :
    (problemCauseNPlusOneRule th).Respects (Finding.renamed m t') (.request t) where
  condition b hb := h.isSingleDatabaseCall hb
  action b hb := by
    simp only [problemCauseNPlusOneRule, causeFor hb (h.problemCauseNPlusOne th)]
    cases SlowRequest.causeFor (NPlusOne.rootCause th) b <;> rfl

private theorem recurrence_findings (h : t.Renamed m t') (th : Thresholds)
    (hb : b.root = .request t) :
    Recurrence.findings th (b.map (Finding.renamed m t')) = Recurrence.findings th b := by
  obtain ⟨htree, htree'⟩ := Binding.tree_renamed m t' hb
  rw [Recurrence.findings, Recurrence.findings, htree, htree', Binding.cluster_renamed,
    Binding.aggregate_renamed]
  cases b.aggregate Tag.problemCause with
  | error e => rfl
  | ok cause => simp only [ofRule, Except.mapError, Except.map, bind, Except.bind, h.classify]

private theorem respects_causeStructure (h : t.Renamed m t') (th : Thresholds) :
    (causeStructureRule th).Respects (Finding.renamed m t') (.request t) where
  condition _ _ := rfl
  action b hb := by
    simp only [causeStructureRule, h.recurrence_findings th hb]
    cases Recurrence.findings th b <;> rfl

private theorem respects_causeStructureNPlusOne (t t' : CallTree) :
    causeStructureNPlusOneRule.Respects (Finding.renamed m t') (.request t) where
  condition _ _ := rfl
  action b _ := by
    simp only [causeStructureNPlusOneRule, Binding.aggregate_renamed]
    cases b.aggregate Tag.problemCauseNPlusOne <;> rfl

private theorem respects [NaNSums] (h : t.Renamed m t') (th : Thresholds) :
    ∀ r ∈ diagnosisOrder th, r.Respects (Finding.renamed m t') (.request t) := by
  simp only [diagnosisOrder, List.forall_mem_cons, List.not_mem_nil, false_implies, implies_true,
    and_true]
  exact ⟨h.respects_globalContext, h.respects_operations th, h.respects_problemContext th,
    h.respects_problemCause th, h.respects_problemCauseNPlusOne th, h.respects_causeStructure th,
    respects_causeStructureNPlusOne t t'⟩

end CallTree.Renamed

/-- Diagnoses of a tree and of a renamed one both end, with the same facts in the same places: tags,
parents, handles, times and structures, and also keys, once those of the first are renamed. -/
theorem diagnosis_renamed [NaNSums] {t t' : CallTree} (h : t.Renamed m t') (th : Thresholds)
    (baseline : Float) :
    ∃ g s s' first second, diagnosisGraph th = .ok g ∧
      (Session.new g).activate (.request t) (baselineOnly baseline) = .ok s ∧
      (Session.new g).activate (.request t') (baselineOnly baseline) = .ok s' ∧
      s.call = (first, .ok first.facts.size) ∧ s'.call = (second, .ok second.facts.size) ∧
      second.facts.facts = first.facts.facts.map (Fact.map (Finding.renamed m t')) ∧
      ∀ tag, second.facts.ids tag = first.facts.ids tag := by
  obtain ⟨F, hF⟩ := exists_finished th t baseline
  obtain ⟨G, hG⟩ := exists_finished th t' baseline
  have hstart : (FactForest.empty.insert Tag.root (.request t) none).Translates
      (Finding.renamed m t') (FactForest.empty.insert Tag.root (.request t') none) := by
    simp [FactForest.Translates, FactForest.insert, FactForest.empty, FactForest.facts, Fact.map,
      Finding.renamed]
  have htranslates : F.Translates (Finding.renamed m t') G := by
    have hfired := fun vars => (@fireAll_translates _ _ _ _ vars _ _ _ (h.respects th) rfl hstart).1
    have hends := hfired (baselineOnly baseline)
    rwa [hF.run, hG.run] at hends
  refine ⟨_, _, _, ⟨⟨Tag.root, diagnosisOrder th⟩, .processed, F, baselineOnly baseline⟩,
    ⟨⟨Tag.root, diagnosisOrder th⟩, .processed, G, baselineOnly baseline⟩,
    diagnosisGraph_eq th, rfl, rfl, ?_, ?_, htranslates, htranslates.ids⟩
  · simp only [Session.call, Session.new, if_true, List.append_nil, hF.run]
  · simp only [Session.call, Session.new, if_true, List.append_nil, hG.run]

/-! ## A page recorded twice -/

def Renaming.same : Renaming :=
  ⟨id, id, id, Function.injective_id, Function.injective_id, Function.injective_id⟩

def Renaming.moved : Renaming where
  method x := x + 1
  statement s := "v2." ++ s
  uri u := "/v2" ++ u
  method_injective _ _ h := (UInt64.add_left_inj 1).mp h
  statement_injective _ _ h := (String.append_right_inj _).mp h
  uri_injective _ _ h := (String.append_right_inj _).mp h

/-- A page that runs a statement and asks a service for the rest. -/
def pageCalls (names : Renaming) (cpu : Float) (count : UInt64) : CallTree.Builder :=
  let call (method : UInt64) (duration : Float) (measurement : Measurement) : Call :=
    ⟨names.method method, duration, measurement, count, .epoch, 0, 0⟩
  let under (b : CallTree.Builder) (c : Call) : CallTree.Builder :=
    ((b.addChild ⟨0⟩ c).toOption.map Prod.snd).getD b
  let root := call 1 5000.0 (.timer ⟨5000.0, none, cpu, count⟩)
  let statement := call 2 3000.0
    (.sql ⟨3000.0, some 3000.0, cpu, count⟩ (names.statement "select 1"))
  let service := call 3 2000.0 (.http ⟨2000.0, some 2000.0, cpu, count⟩ (names.uri "/rest") "GET")
  under (under (.ofRoot root) statement) service

def page (names : Renaming) (cpu : Float) (count : UInt64) : CallTree where
  nodes := (pageCalls names cpu count).nodes
  consistent := (pageCalls names cpu count).consistent
  nonempty := by
    simp [pageCalls, CallTree.Builder.addChild, CallTree.Builder.ofRoot, Arena.size_link,
      Except.toOption]

open Desktop in
theorem diagnosis_renamed_page :
    (page .same 0.0 1).Renamed .moved (page .moved 7.0 2) ∧
      ∃ g s s' first second, diagnosisGraph .default = .ok g ∧
        (Session.new g).activate (.request (page .same 0.0 1)) (baselineOnly 1000.0) = .ok s ∧
        (Session.new g).activate (.request (page .moved 7.0 2)) (baselineOnly 1000.0) = .ok s' ∧
        s.call = (first, .ok first.facts.size) ∧ s'.call = (second, .ok second.facts.size) ∧
        second.facts.facts =
          first.facts.facts.map (Fact.map (Finding.renamed .moved (page .moved 7.0 2))) ∧
        ∀ tag, second.facts.ids tag = first.facts.ids tag := by
  have hrenamed : (page .same 0.0 1).Renamed .moved (page .moved 7.0 2) :=
    .cons ⟨rfl, rfl, rfl, .timer (by rfl)⟩ (.cons ⟨rfl, rfl, rfl, .sql (by rfl) _⟩
      (.cons ⟨rfl, rfl, rfl, .http (by rfl) _ _ _⟩ .nil))
  exact ⟨hrenamed, diagnosis_renamed hrenamed .default 1000.0⟩

end SlowRequest
