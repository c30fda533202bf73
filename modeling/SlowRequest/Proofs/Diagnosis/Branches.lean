import SlowRequest.Desktop
import SlowRequest.Occurrence.Collect
import SlowRequest.Proofs.Diagnosis.Firing
/-! # Branches of a diagnosis -/
namespace SlowRequest

open Desktop in
def diagnosisDescriptors : List Descriptor := (diagnosisRules .default).map Rule.descriptor

section Rules

variable [NaNSums]

theorem map_descriptor_diagnosisRules (th : Thresholds) :
    (diagnosisRules th).map Rule.descriptor = diagnosisDescriptors := by
  simp only [diagnosisDescriptors, diagnosisRules, List.map_cons, timeWastingOperationsRule,
    problemContextRule, problemCauseRule, problemCauseNPlusOneRule, causeStructureRule]

theorem diagnosisGraph_eq (th : Thresholds) :
    diagnosisGraph th = .ok ⟨Tag.root, diagnosisOrder th⟩ := by
  have hds := map_descriptor_diagnosisRules th
  have hdeclared : declarationFault? Tag.root [] diagnosisDescriptors = none := by decide +kernel
  have hproduced : producerFault? Tag.root diagnosisDescriptors = none := by decide +kernel
  have horder : topologicalOrder diagnosisDescriptors = .ok [0, 1, 2, 3, 4, 5, 6] := by
    have hscheduled : schedule diagnosisDescriptors [] (List.range diagnosisDescriptors.length) =
        ([0, 1, 2, 3, 4, 5, 6], []) := by decide +kernel
    exact topologicalOrder_eq hscheduled
  have hanchors : anchors Tag.root [(Tag.root, 0)] diagnosisDescriptors =
      [Tag.root, Tag.globalContext, Tag.operations, Tag.problemContext, Tag.problemContext,
        Tag.problemCause, Tag.problemCauseNPlusOne] := by decide +kernel
  have hordered : [0, 1, 2, 3, 4, 5, 6].filterMap (fun i => (diagnosisRules th)[i]?) =
      diagnosisRules th := rfl
  rw [diagnosisGraph, RuleGraph.register, hds]
  simp only [hdeclared, hproduced, horder, bind, Except.bind, hordered, hds, hanchors]
  rfl

end Rules

structure Branch where
  operation : FactId
  context : FactId
  cause : FactId
  recurrence : FactId

/-- What is found along a branch. -/
structure Branch.Holds (f : FactForest Finding) (b : Branch) (c : Cluster) (cause : Aggregate)
    (s : CauseStructure) : Prop where
  context : (f.get? b.context).map Fact.value = some (.cluster c)
  cause : (f.get? b.cause).map Fact.value = some (.aggregate cause)
  recurrence : (f.get? b.recurrence).map Fact.value = some (.causeStructure s)

/-- A forest of one global context and these branches. -/
structure Branched (f : FactForest Finding) (branches : List Branch) : Prop where
  size : f.size = 2 + 4 * (f.ids Tag.operations).length
  root : f.ids Tag.root = [0]
  lineages : ∃ global, f.ids Tag.globalContext = [global] ∧ ∀ b ∈ branches,
    f.lineage b.recurrence = [b.recurrence, b.cause, b.context, b.operation, global, 0]
  operations : (branches.map Branch.operation).Perm (f.ids Tag.operations)
  contexts : (branches.map Branch.context).Perm (f.ids Tag.problemContext)
  causes : (branches.map Branch.cause).Perm
    (f.ids Tag.problemCause ++ f.ids Tag.problemCauseNPlusOne)
  recurrences : branches.map Branch.recurrence = f.ids Tag.causeStructure

/-- The occurrence says what is found along the branch. -/
def Occurrence.Describes (f : FactForest Finding) (b : Branch) (o : Occurrence) : Prop :=
  ∃ c cause s, b.Holds f c cause s ∧ o.problemContext.node = c.context ∧
    o.rootCause.nodes = cause.members.toList ∧ o.causeStructure = s

section Counting

variable {α : Type} {as : List FactId} {g h : FactId → List α}

private theorem flatMap_map_of_single (hone : ∀ a ∈ as, ∃ v, g a = [v]) :
    (as.flatMap fun a => (g a).map fun _ => some a) = as.map some := by
  induction as with
  | nil => rfl
  | cons a as ih =>
    obtain ⟨v, hv⟩ := hone a List.mem_cons_self
    rw [List.flatMap_cons, hv, ih fun b hb => hone b (List.mem_cons_of_mem _ hb)]
    rfl

private theorem flatMap_map_append_perm (hone : ∀ a ∈ as, ∃ v, g a ++ h a = [v]) :
    ((as.flatMap fun a => (g a).map fun _ => some a) ++
      as.flatMap fun a => (h a).map fun _ => some a).Perm (as.map some) := by
  induction as with
  | nil => exact List.Perm.refl _
  | cons a as ih =>
    obtain ⟨v, hv⟩ := hone a List.mem_cons_self
    have hrest := ih fun b hb => hone b (List.mem_cons_of_mem _ hb)
    rw [List.flatMap_cons, List.flatMap_cons, List.map_cons]
    rcases List.append_eq_singleton_iff.mp hv with ⟨hg, hh⟩ | ⟨hg, hh⟩
    · rw [hg, hh]
      exact List.perm_middle.trans (hrest.cons _)
    · rw [hg, hh]
      exact hrest.cons _

end Counting

section Finished

variable [NaNSums] {th : Thresholds} {t : CallTree} {baseline : Float} {F : FactForest Finding}

theorem inOrder_diagnosisOrder (th : Thresholds) : InOrder Tag.root (diagnosisOrder th) :=
  (RuleGraph.inOrder_of_register (diagnosisGraph_eq th)).2.2

/-- A forest that a diagnosis ended with. -/
structure Finished (th : Thresholds) (t : CallTree) (baseline : Float)
    (F : FactForest Finding) : Prop where
  staged : Staged t baseline F
  run : fireAll (baselineOnly baseline) (diagnosisOrder th)
    (FactForest.empty.insert Tag.root (.request t) none) = (F, none)

theorem exists_finished (th : Thresholds) (t : CallTree) (baseline : Float) :
    ∃ F, Finished th t baseline F := by
  obtain ⟨F, hrun, hstaged⟩ :=
    fireAll_of_keeps (diagnosisOrder_keeps th t baseline) (Staged.initial t baseline)
  exact ⟨F, hstaged, hrun⟩

namespace Finished

theorem ids_root (h : Finished th t baseline F) : F.ids Tag.root = [0] := by
  have hgrow := grows_fireAll (fun tag => tag ≠ Tag.root)
    (inOrder_diagnosisOrder th).output_ne h.run
  rw [hgrow.ids fun hne => hne rfl]
  rfl

private theorem parents_of_writer (h : Finished th t baseline F) {tag : Tag} (htag : Tag.root ≠ tag)
    {r : ScheduledRule Finding DiagnosisError}
    (hwriter : ((diagnosisOrder th).filter fun r => r.descriptor.output = tag) = [r]) :
    (F.ids tag).map F.parent? = (F.ids r.anchor).flatMap fun a =>
      (r.valuesAt (baselineOnly baseline) F a).map fun _ => some a := by
  rw [map_parent?_ids (inOrder_diagnosisOrder th) h.run htag, hwriter, List.flatMap_singleton]

theorem parents_globalContext (h : Finished th t baseline F) :
    (F.ids Tag.globalContext).map F.parent? = [some 0] := by
  rw [h.parents_of_writer (by decide) (r := ⟨globalContextRule, Tag.root⟩) rfl]
  rw [flatMap_map_of_single]
  · rw [h.ids_root]
    rfl
  · intro a ha
    exact ⟨_, ScheduledRule.valuesAt_of_fireAt (h.staged.fire_globalContext ha)⟩

theorem parents_problemContext (h : Finished th t baseline F) :
    (F.ids Tag.problemContext).map F.parent? = (F.ids Tag.operations).map some := by
  rw [h.parents_of_writer (by decide) (r := ⟨problemContextRule th, Tag.operations⟩) rfl]
  apply flatMap_map_of_single
  intro a ha
  obtain ⟨c, hfire, -⟩ := h.staged.fire_problemContext th ha
  exact ⟨_, ScheduledRule.valuesAt_of_fireAt hfire⟩

theorem parents_causes (h : Finished th t baseline F) :
    ((F.ids Tag.problemCause ++ F.ids Tag.problemCauseNPlusOne).map F.parent?).Perm
      ((F.ids Tag.problemContext).map some) := by
  rw [List.map_append,
    h.parents_of_writer (by decide) (r := ⟨problemCauseRule th, Tag.problemContext⟩) rfl,
    h.parents_of_writer (by decide) (r := ⟨problemCauseNPlusOneRule th, Tag.problemContext⟩) rfl]
  apply flatMap_map_append_perm
  intro a ha
  obtain ⟨c, p, hhangs, hc, -⟩ := h.staged.hangs_problemContext ha
  obtain ⟨cause, -, hcause⟩ := h.staged.fire_problemCause th hc hhangs.finds
  obtain ⟨joint, -, hjoint⟩ := h.staged.fire_problemCauseNPlusOne th hc hhangs.finds
  rw [ScheduledRule.valuesAt_of_fireAt hcause, ScheduledRule.valuesAt_of_fireAt hjoint]
  cases c.isStatement t with
  | true => exact ⟨_, rfl⟩
  | false => exact ⟨_, rfl⟩

theorem parents_causeStructure (h : Finished th t baseline F) :
    (F.ids Tag.causeStructure).map F.parent? =
      (F.ids Tag.problemCause ++ F.ids Tag.problemCauseNPlusOne).map some := by
  have hwriters : ((diagnosisOrder th).filter fun r => r.descriptor.output = Tag.causeStructure) =
      [⟨causeStructureRule th, Tag.problemCause⟩,
        ⟨causeStructureNPlusOneRule, Tag.problemCauseNPlusOne⟩] := rfl
  have htag : Tag.root ≠ Tag.causeStructure := by decide
  rw [map_parent?_ids (inOrder_diagnosisOrder th) h.run htag, hwriters, List.flatMap_cons,
    List.flatMap_singleton, List.map_append]
  congr 1
  · apply flatMap_map_of_single
    intro a ha
    obtain ⟨s, hfire⟩ := h.staged.fire_causeStructure th ha
    exact ⟨_, ScheduledRule.valuesAt_of_fireAt hfire⟩
  · apply flatMap_map_of_single
    intro a ha
    obtain ⟨s, hfire⟩ := h.staged.fire_causeStructureNPlusOne ha
    exact ⟨_, ScheduledRule.valuesAt_of_fireAt hfire⟩

end Finished

end Finished

/-- A branch with what it holds, each fact derived from the next one. -/
structure Branch.Trail (t : CallTree) (baseline : Float) (f : FactForest Finding) (b : Branch)
    (global : FactId) (s : CauseStructure) (stage : Stage) (a : Aggregate) (c : Cluster) :
    Prop where
  recurrence : Hangs f .causeStructure (.causeStructure s) b.recurrence b.cause
  kind : stage ∈ Stage.causeStructure.under
  cause : Hangs f stage (.aggregate a) b.cause b.context
  context : Hangs f .problemContext (.cluster c) b.context b.operation
  operation : ∃ o, Hangs f .operations (.aggregate o) b.operation global
  globalContext : Hangs f .globalContext (.node (globalContext t baseline)) global 0
  isGlobal : global ∈ f.ids Tag.globalContext
  within : a.Within t
  timed : c.Timed t

def FactForest.up (f : FactForest Finding) (id : FactId) : FactId := (f.parent? id).getD 0

def Branch.upFrom (f : FactForest Finding) (id : FactId) : Branch :=
  ⟨f.up (f.up (f.up id)), f.up (f.up id), f.up id, id⟩

variable {t : CallTree} {baseline : Float} {f : FactForest Finding}

private theorem Staged.exists_trail (hf : Staged t baseline f) {id : FactId}
    (hid : id ∈ f.ids Tag.causeStructure) :
    ∃ global s stage a c, (Branch.upFrom f id).Trail t baseline f global s stage a c := by
  obtain ⟨s, cause, stage, hrecurrence, hstage, hcause⟩ := hf.hangs_causeStructure hid
  obtain ⟨a, context, hcause, ha, hcontext⟩ := hf.hangs_cause hstage hcause
  obtain ⟨c, operation, hcontext, hc, hoperation⟩ := hf.hangs_problemContext hcontext
  obtain ⟨o, global, hoperation, -, hglobal⟩ := hf.hangs_operation hoperation
  have hbranch : Branch.upFrom f id = ⟨operation, context, cause, id⟩ := by
    simp only [Branch.upFrom, FactForest.up, hrecurrence.parent?, hcause.parent?,
      hcontext.parent?, Option.getD_some]
  rw [hbranch]
  exact ⟨global, s, stage, a, c, hrecurrence, hstage, hcause, hcontext, ⟨o, hoperation⟩,
    hf.hangs_globalContext hglobal, hglobal, ha, hc⟩

namespace Branch.Trail

variable {b : Branch} {global : FactId} {s : CauseStructure} {stage : Stage} {a : Aggregate}
  {c : Cluster}

theorem holds (h : b.Trail t baseline f global s stage a c) : b.Holds f c a s where
  context := by rw [h.context.fact]; rfl
  cause := by rw [h.cause.fact]; rfl
  recurrence := by rw [h.recurrence.fact]; rfl

theorem lineage (hf : Staged t baseline f) (h : b.Trail t baseline f global s stage a c) :
    f.lineage b.recurrence = [b.recurrence, b.cause, b.context, b.operation, global, 0] := by
  obtain ⟨o, hoperation⟩ := h.operation
  rw [h.recurrence.lineage, h.cause.lineage, h.context.lineage, hoperation.lineage,
    h.globalContext.lineage, FactForest.lineage_of_root hf.root rfl]

private theorem onLineage_of_finds {id : FactId} {tag : Tag} {v : Finding} (h : f.Finds id tag v) :
    Narrowing.onLineage f id tag = some v := by
  obtain ⟨j, x, hj, hx, rfl⟩ := h
  rw [Narrowing.onLineage, hj]
  simp [hx]

private theorem onLineage_cause (hf : Staged t baseline f)
    (h : b.Trail t baseline f global s stage a c) :
    (Narrowing.onLineage f b.recurrence Tag.problemCause).or
      (Narrowing.onLineage f b.recurrence Tag.problemCauseNPlusOne) = some (.aggregate a) := by
  have hkind : stage = .problemCause ∨ stage = .problemCauseNPlusOne := by
    simpa [Stage.under] using h.kind
  have hcause := h.cause
  rcases hkind with rfl | rfl
  · have hfinds := h.recurrence.above .problemCause (by decide) hcause.finds
    have hfound : Narrowing.onLineage f b.recurrence Tag.problemCause = some (.aggregate a) :=
      onLineage_of_finds hfinds
    rw [hfound, Option.some_or]
  · obtain ⟨o, hoperation⟩ := h.operation
    have htag : Tag.root ≠ Stage.problemCause.tag := by decide
    have hroot : f.nearest? 0 Stage.problemCause.tag = none :=
      FactForest.nearest?_of_root hf.root rfl htag
    have hnearest : f.nearest? b.recurrence Stage.problemCause.tag = none := by
      rw [h.recurrence.nearest? .problemCause (by decide),
        hcause.nearest? .problemCause (by decide), h.context.nearest? .problemCause (by decide),
        hoperation.nearest? .problemCause (by decide),
        h.globalContext.nearest? .problemCause (by decide), hroot]
    have hnone : Narrowing.onLineage f b.recurrence Tag.problemCause = none := by
      change ((f.nearest? b.recurrence Stage.problemCause.tag).bind f.get?).map Fact.value = none
      rw [hnearest]
      rfl
    have hfinds := h.recurrence.above .problemCauseNPlusOne (by decide) hcause.finds
    have hfound : Narrowing.onLineage f b.recurrence Tag.problemCauseNPlusOne =
        some (.aggregate a) := onLineage_of_finds hfinds
    rw [hnone, hfound, Option.none_or]

private theorem narrowing_ok (hf : Staged t baseline f)
    (h : b.Trail t baseline f global s stage a c) :
    Narrowing.of f b.recurrence =
      .ok ⟨s, a, c, SlowRequest.globalContext t baseline⟩ := by
  have hkind : stage ≠ .problemContext ∧ stage ≠ .globalContext := by
    have hstage := h.kind
    constructor <;> rintro rfl <;> simp [Stage.under] at hstage
  obtain ⟨o, hoperation⟩ := h.operation
  have hcluster : Narrowing.onLineage f b.recurrence Tag.problemContext = some (.cluster c) :=
    onLineage_of_finds (h.recurrence.above .problemContext (by decide)
      (h.cause.above .problemContext hkind.1 h.context.finds))
  have hglobal : Narrowing.onLineage f b.recurrence Tag.globalContext =
      some (.node (SlowRequest.globalContext t baseline)) :=
    onLineage_of_finds (h.recurrence.above .globalContext (by decide)
      (h.cause.above .globalContext hkind.2 (h.context.above .globalContext (by decide)
        (hoperation.above .globalContext (by decide) h.globalContext.finds))))
  rw [Narrowing.of, onLineage_cause hf h, hcluster, hglobal, h.holds.recurrence]
  rfl

end Branch.Trail

section Collecting

variable {id : NodeId} {root : Node}

theorem contains_root (t : CallTree) : t.contains t.root := CallTree.contains_iff.mpr t.nonempty

private theorem CallReference.of_ok (h : t.contains id) :
    ∃ reference, CallReference.of t id = .ok reference ∧ reference.node = id := by
  obtain ⟨n, hn⟩ := CallTree.exists_get? h
  rw [CallReference.of, CallTree.node_of_get? hn]
  exact ⟨_, rfl, rfl⟩

private theorem CauseReference.invocationIdsOf_ok {ids : List NodeId}
    (h : ∀ id ∈ ids, t.contains id) :
    ∃ invocationIds, invocationIdsOf t ids = .ok invocationIds := by
  induction ids with
  | nil => exact ⟨[], rfl⟩
  | cons id ids ih =>
    obtain ⟨n, hn⟩ := CallTree.exists_get? (h id List.mem_cons_self)
    obtain ⟨rest, hrest⟩ := ih fun x hx => h x (List.mem_cons_of_mem _ hx)
    rw [invocationIdsOf, CallTree.node_of_get? hn, hrest]
    exact ⟨_, rfl⟩

private theorem CauseReference.of_ok {cause : Aggregate} (h : cause.Within t) :
    ∃ reference, CauseReference.of t cause = .ok reference ∧
      reference.nodes = cause.members.toList := by
  obtain ⟨invocationIds, hids⟩ := invocationIdsOf_ok h.members
  rw [CauseReference.of, hids]
  exact ⟨_, rfl, rfl⟩

structure Narrowing.Gives (t : CallTree) (n : Narrowing) (o : Occurrence) : Prop where
  requestRoot : o.requestRoot.node = t.root
  globalContext : o.globalContext.node = n.globalContext
  problemContext : o.problemContext.node = n.cluster.context
  rootCause : o.rootCause.nodes = n.cause.members.toList
  causeStructure : o.causeStructure = n.structureFound

private theorem Narrowing.occurrence_ok (n : Narrowing) (root : Node) (number : UInt64)
    (hglobal : t.contains n.globalContext) (hcause : n.cause.Within t)
    (hcluster : n.cluster.Timed t) :
    ∃ o, n.occurrence t root number = .ok o ∧ n.Gives t o := by
  obtain ⟨requestRoot, hroot, hfirst⟩ := CallReference.of_ok (contains_root t)
  obtain ⟨globalContext, hglobal, hsecond⟩ := CallReference.of_ok hglobal
  obtain ⟨problemContext, hcontext, hnode⟩ := CallReference.of_ok hcluster.context
  obtain ⟨rootCause, hcause, hnodes⟩ := CauseReference.of_ok hcause
  rw [Narrowing.occurrence, hroot, hglobal, hcontext, hcause]
  exact ⟨_, rfl, hfirst, hsecond, hnode, hnodes, rfl⟩

def Occurrence.Follows (t : CallTree) (baseline : Float) (f : FactForest Finding) (b : Branch)
    (o : Occurrence) : Prop :=
  ∃ global s stage a c, b.Trail t baseline f global s stage a c ∧
    Narrowing.Gives t ⟨s, a, c, SlowRequest.globalContext t baseline⟩ o

theorem Occurrence.Follows.describes {b : Branch} {o : Occurrence}
    (h : o.Follows t baseline f b) : o.Describes f b := by
  obtain ⟨global, s, stage, a, c, htrail, hgives⟩ := h
  exact ⟨c, a, s, htrail.holds, hgives.problemContext, hgives.rootCause, hgives.causeStructure⟩

private theorem Occurrence.assemble_ok {ids : List FactId} (next : UInt64)
    (h : ∀ id ∈ ids, ∃ n, Narrowing.of f id = .ok n ∧ ∀ number, ∃ o,
      n.occurrence t root number = .ok o ∧ o.Follows t baseline f (Branch.upFrom f id)) :
    ∃ occurrences last, assemble f t root ids next = (.ok occurrences, last) ∧
      List.Forall₂ (fun b o => o.Follows t baseline f b) (ids.map (Branch.upFrom f))
        occurrences := by
  induction ids generalizing next with
  | nil => exact ⟨[], next, rfl, List.Forall₂.nil⟩
  | cons id ids ih =>
    obtain ⟨n, hn, hall⟩ := h id List.mem_cons_self
    obtain ⟨o, ho, hfollows⟩ := hall next
    obtain ⟨rest, last, hrest, hforall⟩ :=
      ih (next + 1) fun x hx => h x (List.mem_cons_of_mem _ hx)
    refine ⟨o :: rest, last, ?_, List.Forall₂.cons hfollows hforall⟩
    rw [assemble, hn]
    simp only [ho, hrest]
    rfl

theorem Staged.collect_ok (hf : Staged t baseline f) (next : UInt64) :
    ∃ occurrences last, Occurrence.collect f next = (.ok occurrences, last) ∧
      List.Forall₂ (fun b o => o.Follows t baseline f b)
        ((f.ids Tag.causeStructure).map (Branch.upFrom f)) occurrences := by
  obtain ⟨n, hn⟩ := CallTree.exists_get? (contains_root t)
  have hall : ∀ id ∈ f.ids Tag.causeStructure, ∃ m, Narrowing.of f id = .ok m ∧ ∀ number, ∃ o,
      m.occurrence t n number = .ok o ∧ o.Follows t baseline f (Branch.upFrom f id) := by
    intro id hid
    obtain ⟨global, s, stage, a, c, htrail⟩ := hf.exists_trail hid
    refine ⟨_, htrail.narrowing_ok hf, ?_⟩
    intro number
    obtain ⟨o, ho, hgives⟩ := Narrowing.occurrence_ok
      ⟨s, a, c, globalContext t baseline⟩ n number (contains_globalContext t baseline)
      htrail.within htrail.timed
    exact ⟨o, ho, global, s, stage, a, c, htrail, hgives⟩
  obtain ⟨occurrences, last, hassemble, hforall⟩ := Occurrence.assemble_ok next hall
  refine ⟨occurrences, last, ?_, hforall⟩
  rw [Occurrence.collect, hf.root]
  simp only [Finding.require, Finding.request?, Option.bind_some, bind, Except.bind,
    CallTree.diagnosedNode_of_get? hn, FactForest.map_id_entries]
  exact hassemble

end Collecting

private theorem map_up_perm {ids parents : List FactId}
    (h : (ids.map f.parent?).Perm (parents.map some)) : (ids.map f.up).Perm parents := by
  have hparents : (parents.map some).map (fun id => id.getD 0) = parents := by
    rw [List.map_map]
    exact List.map_id parents
  have hperm := h.map fun id => id.getD 0
  rw [hparents, List.map_map] at hperm
  exact hperm

theorem Finished.branched [NaNSums] {th : Thresholds} (h : Finished th t baseline f) :
    Branched f ((f.ids Tag.causeStructure).map (Branch.upFrom f)) := by
  have hcauses := map_up_perm (List.Perm.of_eq h.parents_causeStructure)
  have hcontexts := (hcauses.map f.up).trans (map_up_perm h.parents_causes)
  have hoperations := (hcontexts.map f.up).trans
    (map_up_perm (List.Perm.of_eq h.parents_problemContext))
  simp only [List.map_map] at hcauses hcontexts hoperations
  have hglobal : (f.ids Tag.globalContext).length = 1 := by
    rw [← List.length_map f.parent?, h.parents_globalContext]
    rfl
  constructor
  · have hsize := h.staged.size_eq
    simp only [Stage.all, Stage.tag, List.map_cons, List.map_nil, tally,
      h.ids_root, hglobal, List.length_singleton] at hsize
    have h₁ := hcauses.length_eq
    have h₂ := hcontexts.length_eq
    have h₃ := hoperations.length_eq
    rw [List.length_map] at h₁ h₂ h₃
    rw [List.length_append] at h₁
    omega
  · exact h.ids_root
  · obtain ⟨global, hids⟩ := List.length_eq_one_iff.mp hglobal
    refine ⟨global, hids, ?_⟩
    intro b hb
    obtain ⟨id, hid, rfl⟩ := List.mem_map.mp hb
    obtain ⟨global', s, stage, a, c, htrail⟩ := h.staged.exists_trail hid
    have hsame : global' = global := by
      have hmem := htrail.isGlobal
      rw [hids] at hmem
      exact List.mem_singleton.mp hmem
    rw [htrail.lineage h.staged, hsame]
  · rw [List.map_map]
    exact hoperations
  · rw [List.map_map]
    exact hcontexts
  · rw [List.map_map]
    exact hcauses
  · rw [List.map_map]
    exact List.map_id _

/-- Every diagnosis ends, and with one occurrence for each of its branches. -/
theorem diagnosis_complete [NaNSums] (th : Thresholds) (t : CallTree) (baseline : Float)
    (next : UInt64) :
    ∃ g s s' branches occurrences last, diagnosisGraph th = .ok g ∧
      (Session.new g).activate (.request t) (baselineOnly baseline) = .ok s ∧
      s.call = (s', .ok s'.facts.size) ∧ Branched s'.facts branches ∧
      Occurrence.collect s'.facts next = (.ok occurrences, last) ∧
      List.Forall₂ (Occurrence.Describes s'.facts) branches occurrences := by
  obtain ⟨F, hfinished⟩ := exists_finished th t baseline
  obtain ⟨occurrences, last, hcollect, hforall⟩ := hfinished.staged.collect_ok next
  refine ⟨_, _, ⟨⟨Tag.root, diagnosisOrder th⟩, .processed, F, baselineOnly baseline⟩, _,
    occurrences, last, diagnosisGraph_eq th, rfl, ?_, hfinished.branched, hcollect,
    hforall.imp fun _ _ => Occurrence.Follows.describes⟩
  simp only [Session.call, Session.new, if_true, List.append_nil, hfinished.run]

end SlowRequest
