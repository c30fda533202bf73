import SlowRequest.Diagnosis.Recurrence
import SlowRequest.Proofs.CallTree.Ancestry
import SlowRequest.Proofs.Diagnosis.Attribution
namespace SlowRequest

namespace Attribution

variable {t : CallTree} {ids : List NodeId}

theorem cause_ok (th : Thresholds) (duration : Float) (hne : ids ≠ [])
    (hids : ∀ id ∈ ids, t.Timed id) :
    ∃ found, Attribution.cause th t ids duration = .ok found ∧ found.members.toList ≠ [] ∧
      found.members.toList <+: ids := by
  obtain ⟨key, k, -, hleast, hcause⟩ := cause_eq_ofCalls th duration hne hids
  exact ⟨_, hcause, share_ne_nil th.sigmaFactor hne hleast.1.1,
    share_leads t th.sigmaFactor ids k⟩

end Attribution

/-- A cluster as a clustering of timed calls leaves it. -/
structure Cluster.Timed (t : CallTree) (c : Cluster) : Prop where
  context : t.contains c.context
  nonempty : c.invocations ≠ []
  invocations : ∀ id ∈ c.invocations, t.Timed id

/-- `id` is one of more than `minCalls` calls of one SQL statement that `caller` makes itself. -/
structure CallTree.Repeats (t : CallTree) (minCalls : Nat) (caller id : NodeId) : Prop where
  parent : t.parent? id = some caller
  statement : ∃ key, t.key? id = some key ∧ key.isSql = true ∧
    minCalls < (t.children caller).countP fun s => t.key? s == some key

/-- The calls of SQL statements that `caller` makes itself more than `minCalls` times, statement
after statement as first called. -/
def CallTree.repeatedCalls (t : CallTree) (minCalls : Nat) (caller : NodeId) : List NodeId :=
  ((t.operations (t.children caller)).filter fun key =>
    key.isSql && decide (minCalls < (t.callsOf (t.children caller) key).length)).flatMap
      (t.callsOf (t.children caller))

structure Aggregate.Within (t : CallTree) (a : Aggregate) : Prop where
  nonempty : a.members.toList ≠ []
  members : ∀ id ∈ a.members.toList, t.contains id

variable {t : CallTree} {c : Cluster}

private theorem Attribution.cause_within {ids : List NodeId} (th : Thresholds) (duration : Float)
    (hne : ids ≠ []) (hids : ∀ id ∈ ids, t.Timed id) :
    ∃ found, Attribution.cause th t ids duration = .ok found ∧ found.Within t ∧
      ∀ id ∈ found.members.toList, id ∈ ids := by
  obtain ⟨found, hfound, hmembers, hshare⟩ := cause_ok th duration hne hids
  exact ⟨found, hfound, ⟨hmembers, fun id hid => (hids id (hshare.subset hid)).contains⟩,
    fun id hid => hshare.subset hid⟩

theorem ProblemCause.rootCause_ok (th : Thresholds) (hc : c.Timed t) :
    ∃ found, rootCause th t c = .ok found ∧ found.Within t ∧
      ∀ id ∈ found.members.toList, id ∈ c.invocations := by
  obtain ⟨n, hn⟩ := CallTree.exists_get? hc.context
  rw [rootCause, CallTree.diagnosedNode_of_get? hn]
  exact Attribution.cause_within th n.duration hc.nonempty hc.invocations

namespace NPlusOne

theorem scope_ok (hc : t.contains c.context) :
    ∃ call, scope t c = .ok call ∧ t.contains call := by
  obtain ⟨n, hn⟩ := CallTree.exists_get? hc
  rw [scope]
  split
  · refine ⟨n.parent.getD c.context, ?_, ?_⟩
    · rw [CallTree.diagnosedNode_of_get? hn]
      rfl
    · cases hp : n.parent with
      | none => exact hc
      | some p =>
        have hparent : t.parent? c.context = some p := by
          rw [CallTree.parent?, Arena.parentOf, show t.nodes[c.context.index]? = some n from hn]
          exact hp
        exact (CallTree.encloses_of_parent? hparent).contains hc
  · exact ⟨c.context, rfl, hc⟩

private theorem mem_appendMissing {calls ids : List NodeId} {id : NodeId} :
    id ∈ appendMissing calls ids ↔ id ∈ calls ∨ id ∈ ids := by
  induction ids generalizing calls with
  | nil => simp [appendMissing]
  | cons x ids ih =>
    rw [appendMissing, ih]
    by_cases hx : x ∈ calls
    · rw [if_pos (List.contains_iff_mem.mpr hx), List.mem_cons]
      constructor
      · rintro (h | h)
        · exact .inl h
        · exact .inr (.inr h)
      · rintro (h | rfl | h)
        · exact .inl h
        · exact .inl hx
        · exact .inr h
    · rw [if_neg (fun h => hx (List.contains_iff_mem.mp h))]
      simp [or_assoc]

theorem timed_of_repeats {minCalls : Nat} {caller id : NodeId}
    (h : t.Repeats minCalls caller id) : t.Timed id := by
  obtain ⟨key, hkey, hsql, -⟩ := h.statement
  obtain ⟨n, hn, rfl⟩ := Option.map_eq_some_iff.mp hkey
  apply CallTree.timed_of_hasSql
  rw [hn]
  exact hsql

theorem mem_repeatedCalls {minCalls : Nat} {caller id : NodeId} :
    id ∈ t.repeatedCalls minCalls caller ↔ t.Repeats minCalls caller id := by
  have hcount : ∀ key, (t.callsOf (t.children caller) key).length =
      (t.children caller).countP fun s => t.key? s == some key :=
    fun key => List.countP_eq_length_filter.symm
  simp only [CallTree.repeatedCalls, List.mem_flatMap, List.mem_filter, Bool.and_eq_true,
    decide_eq_true_eq, CallTree.mem_callsOf, hcount]
  constructor
  · rintro ⟨key, ⟨-, hsql, hoften⟩, hid, hkey⟩
    exact ⟨CallTree.mem_children.mp hid, key, hkey, hsql, hoften⟩
  · rintro ⟨hparent, key, hkey, hsql, hoften⟩
    have hid := CallTree.mem_children.mpr hparent
    exact ⟨key, ⟨CallTree.mem_operations.mpr ⟨id, hid, hkey⟩, hsql, hoften⟩, hid, hkey⟩

private theorem flatMap_repeated (t : CallTree) (minCalls : Nat) (ids : List NodeId) :
    ((Aggregate.grouped t ids).filter fun a => a.key.isSql && decide (minCalls < a.size)).flatMap
        (fun a => a.members.toList) =
      ((t.operations ids).filter fun key =>
        key.isSql && decide (minCalls < (t.callsOf ids key).length)).flatMap (t.callsOf ids) := by
  rw [Aggregate.grouped, List.filter_map, List.flatMap_map]
  rfl

theorem candidates_eq (th : Thresholds) (c : Cluster) {call : NodeId} (hcall : t.contains call) :
    candidates th t call c = .ok
      (if (t.repeatedCalls th.minCallsNPlusOne call).isEmpty then c.invocations
      else appendMissing (t.repeatedCalls th.minCallsNPlusOne call) c.invocations) := by
  obtain ⟨n, hn⟩ := CallTree.exists_get? hcall
  have hsame : n.children.toList = t.children call := by
    rw [CallTree.children, hn]
  have hchildren : ∀ id ∈ t.children call, t.contains id :=
    fun id hid => CallTree.contains_of_parent? (CallTree.mem_children.mp hid)
  rw [candidates, CallTree.diagnosedNode_of_get? hn]
  simp only [bind, Except.bind, hsame, Aggregate.group_eq hchildren, flatMap_repeated]
  rfl

theorem candidates_ok (th : Thresholds) (c : Cluster) {call : NodeId} (hcall : t.contains call) :
    ∃ calls, candidates th t call c = .ok calls ∧ (c.invocations ≠ [] → calls ≠ []) ∧
      ∀ id ∈ calls, id ∈ c.invocations ∨ t.Repeats th.minCallsNPlusOne call id := by
  refine ⟨_, candidates_eq th c hcall, ?_, ?_⟩
  · intro hne
    split
    · exact hne
    · obtain ⟨id, hid⟩ := List.exists_mem_of_ne_nil _ hne
      exact List.ne_nil_of_mem (mem_appendMissing.mpr (.inr hid))
  · intro id hid
    split at hid
    · exact .inl hid
    · exact (mem_appendMissing.mp hid).symm.imp_right mem_repeatedCalls.mp

/-- The cause consists of calls of the cluster and of statements that the scope repeats. -/
theorem rootCause_ok (th : Thresholds) (hc : c.Timed t) :
    ∃ found call, rootCause th t c = .ok found ∧ found.Within t ∧ scope t c = .ok call ∧
      ∀ id ∈ found.members.toList,
        id ∈ c.invocations ∨ t.Repeats th.minCallsNPlusOne call id := by
  obtain ⟨call, hscope, hcall⟩ := scope_ok hc.context
  obtain ⟨n, hn⟩ := CallTree.exists_get? hcall
  obtain ⟨calls, hcalls, hne, hfrom⟩ := candidates_ok th c hcall
  have htimed : ∀ id ∈ calls, t.Timed id := by
    intro id hid
    rcases hfrom id hid with hid | hid
    · exact hc.invocations id hid
    · exact timed_of_repeats hid
  obtain ⟨found, hfound, hwithin, hmembers⟩ :=
    Attribution.cause_within th n.duration (hne hc.nonempty) htimed
  refine ⟨found, call, ?_, hwithin, hscope, fun id hid => hfrom id (hmembers id hid)⟩
  rw [rootCause, hscope]
  simp only [bind, Except.bind, hcalls, CallTree.diagnosedNode_of_get? hn]
  exact hfound

end NPlusOne

theorem Recurrence.classify_ok (th : Thresholds) (context : NodeId) {cause : Aggregate}
    (hcause : cause.members.toList ≠ []) :
    ∃ found, classify th t context cause = .ok found := by
  rw [classify]
  split
  · rename_i hsize
    rw [Aggregate.size, ← Array.length_toList, List.length_eq_zero_iff] at hsize
    exact absurd hsize hcause
  · exact ⟨_, rfl⟩
  · exact ⟨_, rfl⟩

end SlowRequest
