import SlowRequest.Proofs.Diagnosis.Branches
/-!
# Where the calls of an occurrence lie

An occurrence narrows a request down: its problem context lies below its global context, and so do
the calls of its root cause. One search alone leaves the global context. If that is itself the lone
SQL call under suspicion, the statements that its caller repeats are looked at with it.
-/
namespace SlowRequest

/-- The cluster of an occurrence is one SQL call alone, its global context, and `id` is one of the
statements that the caller of this call repeats. -/
structure Occurrence.LooksBeside (t : CallTree) (minCalls : Nat) (c : Cluster) (o : Occurrence)
    (id : NodeId) : Prop where
  alone : c.invocations = [o.globalContext.node]
  context : o.problemContext.node = o.globalContext.node
  statement : (t.get? o.globalContext.node).any Node.hasSql = true
  repeated : ∃ caller, t.parent? o.globalContext.node = some caller ∧ t.Repeats minCalls caller id

/-- The calls of an occurrence lie below one another, as far as it does not look beside its global
context. -/
structure Occurrence.Narrows (t : CallTree) (minCalls : Nat) (c : Cluster) (o : Occurrence) :
    Prop where
  requestRoot : o.requestRoot.node = ⟨0⟩
  problemContext : t.Encloses o.globalContext.node o.problemContext.node
  rootCause : ∀ id ∈ o.rootCause.nodes,
    t.Encloses o.globalContext.node id ∨ o.LooksBeside t minCalls c id

variable {th : Thresholds} {t : CallTree} {baseline : Float} {F : FactForest Finding}
  {c : Cluster} {a : Aggregate}

private theorem NPlusOne.scope_cases {call : NodeId} (hc : t.contains c.context)
    (h : scope t c = .ok call) :
    call = c.context ∨ c.invocations = [c.context] ∧ t.parent? c.context = some call := by
  obtain ⟨n, hn⟩ := CallTree.exists_get? hc
  rw [scope] at h
  split at h
  · rename_i halone
    rw [CallTree.diagnosedNode_of_get? hn] at h
    injection h with h
    cases hp : n.parent with
    | none =>
      rw [hp] at h
      exact .inl h.symm
    | some p =>
      rw [hp] at h
      right
      rw [CallTree.parent?, Arena.parentOf, show t.nodes[c.context.index]? = some n from hn]
      exact ⟨halone, hp.trans (congrArg some h)⟩
  · cases h
    exact .inl rfl

private theorem Cluster.hasSql_of_isStatement {id : NodeId} (h : c.isStatement t = true)
    (halone : c.invocations = [id]) : (t.get? id).any Node.hasSql = true := by
  rw [isStatement, halone] at h
  exact h

namespace Finished

variable [NaNSums]

private theorem mem_valuesAt (h : Finished th t baseline F) {id p : FactId} {tag : Tag}
    {v : Finding} {r : ScheduledRule Finding DiagnosisError}
    (hwriter : ((diagnosisOrder th).filter fun r => r.descriptor.output = tag) = [r])
    (hfact : F.get? id = some ⟨tag, v, some p⟩) :
    v ∈ r.valuesAt (baselineOnly baseline) F p := by
  obtain ⟨r', hr', houtput, hv⟩ :=
    mem_valuesAt_of_get? (inOrder_diagnosisOrder th) h.run hfact
  have hmem : r' ∈ (diagnosisOrder th).filter fun r => r.descriptor.output = tag :=
    List.mem_filter.mpr ⟨hr', decide_eq_true houtput⟩
  rw [hwriter] at hmem
  rw [← List.mem_singleton.mp hmem]
  exact hv

variable {b : Branch} {global : FactId} {s : CauseStructure} {stage : Stage}

private theorem below_of_trail (h : Finished th t baseline F)
    (htrail : b.Trail t baseline F global s stage a c) :
    c.Below t (globalContext t baseline) := by
  have hmem := h.mem_valuesAt (r := ⟨problemContextRule th, Tag.operations⟩) rfl
    htrail.context.fact
  obtain ⟨o, hoperation⟩ := htrail.operation
  have hid : b.operation ∈ F.ids Tag.operations :=
    FactForest.mem_ids.mpr ⟨_, hoperation.fact, rfl⟩
  obtain ⟨c', hfire, -, hbelow⟩ := h.staged.fire_problemContext th hid
  rw [ScheduledRule.valuesAt_of_fireAt hfire, List.mem_singleton] at hmem
  cases hmem
  exact hbelow

private theorem cause_of_trail (h : Finished th t baseline F)
    (htrail : b.Trail t baseline F global s stage a c) :
    ProblemCause.rootCause th t c = .ok a ∨
      c.isStatement t = true ∧ NPlusOne.rootCause th t c = .ok a := by
  have hcluster := htrail.context.finds
  have hkind : stage = .problemCause ∨ stage = .problemCauseNPlusOne := by
    simpa [Stage.under] using htrail.kind
  rcases hkind with rfl | rfl
  · left
    obtain ⟨found, hfound, -⟩ := ProblemCause.rootCause_ok th htrail.timed
    have hmem := h.mem_valuesAt (r := ⟨problemCauseRule th, Tag.problemContext⟩) rfl
      htrail.cause.fact
    rw [ScheduledRule.valuesAt_of_fireAt
      (h.staged.fire_seeking (seeks_problemCauseRule th) hfound hcluster)] at hmem
    split at hmem
    · cases List.mem_singleton.mp hmem
      exact hfound
    · cases hmem
  · right
    obtain ⟨found, call, hfound, -⟩ := NPlusOne.rootCause_ok th htrail.timed
    have hmem := h.mem_valuesAt (r := ⟨problemCauseNPlusOneRule th, Tag.problemContext⟩) rfl
      htrail.cause.fact
    rw [ScheduledRule.valuesAt_of_fireAt
      (h.staged.fire_seeking (seeks_problemCauseNPlusOneRule th) hfound hcluster)] at hmem
    split at hmem
    · rename_i hstatement
      cases List.mem_singleton.mp hmem
      exact ⟨hstatement, hfound⟩
    · cases hmem

end Finished

/-- Statements repeated by the scope of a search lie below what the cluster lies below, but for
those that its caller makes beside the call that everything lies below. -/
theorem NPlusOne.encloses_or_beside {minCalls : Nat} {start call id : NodeId}
    (hc : t.contains c.context) (hbelow : c.Below t start) (hscope : scope t c = .ok call)
    (hid : t.Repeats minCalls call id) :
    t.Encloses start id ∨
      c.context = start ∧ c.invocations = [start] ∧ t.parent? start = some call := by
  have hcall : t.Encloses call id := CallTree.encloses_of_parent? hid.parent
  rcases scope_cases hc hscope with rfl | ⟨halone, hparent⟩
  · exact .inl (hbelow.context.trans hcall)
  · rcases hbelow.context.eq_or_parent hparent with rfl | habove
    · exact .inr ⟨rfl, halone, hparent⟩
    · exact .inl (habove.trans hcall)

private theorem Finished.narrows [NaNSums] (h : Finished th t baseline F) {b : Branch}
    {o : Occurrence} (hfollows : o.Follows t baseline F b) :
    ∃ c, (F.get? b.context).map Fact.value = some (.cluster c) ∧
      o.Narrows t th.minCallsNPlusOne c := by
  obtain ⟨global, s, stage, a, c, htrail, hgives⟩ := hfollows
  have hbelow := h.below_of_trail htrail
  refine ⟨c, htrail.holds.context, hgives.requestRoot, ?_, ?_⟩
  · rw [hgives.globalContext, hgives.problemContext]
    exact hbelow.context
  · intro id hid
    rw [hgives.rootCause] at hid
    rw [hgives.globalContext]
    rcases h.cause_of_trail htrail with hcause | ⟨hstatement, hcause⟩
    · obtain ⟨found, hfound, -, hmembers⟩ := ProblemCause.rootCause_ok th htrail.timed
      rw [hcause] at hfound
      cases hfound
      exact .inl (hbelow.invocations id (hmembers id hid))
    · obtain ⟨found, call, hfound, -, hscope, hmembers⟩ := NPlusOne.rootCause_ok th htrail.timed
      rw [hcause] at hfound
      cases hfound
      rcases hmembers id hid with hid | hid
      · exact .inl (hbelow.invocations id hid)
      · rcases NPlusOne.encloses_or_beside htrail.timed.context hbelow hscope hid with
          hbelow | ⟨hcontext, halone, hparent⟩
        · exact .inl hbelow
        · right
          constructor
          · rw [hgives.globalContext]
            exact halone
          · rw [hgives.problemContext, hgives.globalContext, hcontext]
          · rw [hgives.globalContext]
            exact Cluster.hasSql_of_isStatement hstatement halone
          · rw [hgives.globalContext]
            exact ⟨call, hparent, hid⟩

/-- Every occurrence of a diagnosis narrows its request down, with the cluster that its branch
found. -/
theorem diagnosis_narrows [NaNSums] (th : Thresholds) (t : CallTree) (baseline : Float)
    (next : UInt64) :
    ∃ g s s' occurrences last, diagnosisGraph th = .ok g ∧
      (Session.new g).activate (.request t) (baselineOnly baseline) = .ok s ∧
      s.call = (s', .ok s'.facts.size) ∧
      Occurrence.collect s'.facts next = (.ok occurrences, last) ∧
      ∀ o ∈ occurrences, ∃ b c, o.Describes s'.facts b ∧
        (s'.facts.get? b.context).map Fact.value = some (.cluster c) ∧
        o.Narrows t th.minCallsNPlusOne c := by
  obtain ⟨F, hfinished⟩ := exists_finished th t baseline
  obtain ⟨occurrences, last, hcollect, hforall⟩ := hfinished.staged.collect_ok next
  refine ⟨_, _, ⟨⟨Tag.root, diagnosisOrder th⟩, .processed, F, baselineOnly baseline⟩,
    occurrences, last, diagnosisGraph_eq th, rfl, ?_, hcollect, ?_⟩
  · simp only [Session.call, Session.new, if_true, List.append_nil, hfinished.run]
  · intro o ho
    obtain ⟨b, -, hfollows⟩ := exists_left_of_forall₂ hforall ho
    obtain ⟨c, hcluster, hnarrows⟩ := hfinished.narrows hfollows
    exact ⟨b, c, hfollows.describes, hcluster, hnarrows⟩

def statementCall (duration : Float) : Call where
  method := 2
  duration
  measurement := .sql ⟨duration, some duration, 0.0, 1⟩ "SELECT 1"
  invocationId := 0
  timestamp := .epoch
  application := 0
  businessTransaction := 0

def repeatedCalls : CallTree.Builder :=
  CallTree.Builder.grow (.ofRoot (Call.timed 1 1000.0 0.0))
    [(0, statementCall 600.0), (0, statementCall 400.0)]

/-- A statement called twice, the first time long enough to be the global context. -/
def repeatedStatement : CallTree where
  nodes := repeatedCalls.nodes
  consistent := repeatedCalls.consistent
  nonempty := by decide +kernel

open Desktop in
/-- The second call of the statement is part of the root cause and not of the global context. -/
theorem repeatedStatement_looks_beside :
    ∃ g s s' occurrences last o,
      diagnosisGraph { Thresholds.default with minCallsNPlusOne := 1 } = .ok g ∧
      (Session.new g).activate (.request repeatedStatement) (baselineOnly 500.0) = .ok s ∧
      s.call = (s', .ok s'.facts.size) ∧
      Occurrence.collect s'.facts 1 = (.ok occurrences, last) ∧ o ∈ occurrences ∧
      o.globalContext.node = ⟨1⟩ ∧ o.rootCause.nodes = [⟨1⟩, ⟨2⟩] ∧
      ¬ ∀ id ∈ o.rootCause.nodes, repeatedStatement.Encloses o.globalContext.node id := by
  have hrun : ((diagnosisGraph { Thresholds.default with minCallsNPlusOne := 1 }).toOption.bind
      fun g => ((Session.new g).activate (.request repeatedStatement)
        (baselineOnly 500.0)).toOption.bind fun s =>
          (s.call.2.toOption.filter (· == s.call.1.facts.size)).bind fun _ =>
            (Occurrence.collect s.call.1.facts 1).1.toOption.map
              fun os => os.map fun o => (o.globalContext.node, o.rootCause.nodes)) =
      some [(⟨1⟩, [⟨1⟩, ⟨2⟩])] := by decide +kernel
  obtain ⟨g, hg, hrun⟩ := Option.bind_eq_some_iff.mp hrun
  obtain ⟨s, hs, hrun⟩ := Option.bind_eq_some_iff.mp hrun
  obtain ⟨n, hn, hrun⟩ := Option.bind_eq_some_iff.mp hrun
  obtain ⟨occurrences, hcollect, hnodes⟩ := Option.map_eq_some_iff.mp hrun
  obtain ⟨hn, hsize⟩ := Option.filter_eq_some_iff.mp hn
  have hcall : s.call = (s.call.1, .ok s.call.1.facts.size) := by
    rw [← eq_of_beq hsize, ← Except.eq_ok_of_toOption hn]
  obtain ⟨o, rfl, ho⟩ := List.map_eq_singleton_iff.mp hnodes
  obtain ⟨hglobal, hcause⟩ := Prod.mk.inj ho
  refine ⟨g, s, s.call.1, [o], (Occurrence.collect s.call.1.facts 1).2, o,
    Except.eq_ok_of_toOption hg, Except.eq_ok_of_toOption hs, hcall, ?_, List.mem_singleton_self o,
    hglobal, hcause, ?_⟩
  · rw [← Except.eq_ok_of_toOption hcollect]
  · intro h
    have hbelow := h ⟨2⟩ (by rw [hcause]; decide)
    rw [hglobal] at hbelow
    revert hbelow
    decide +kernel

end SlowRequest
