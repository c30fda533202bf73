import SlowRequest.Diagnosis.Finding
namespace SlowRequest

namespace CallTree

variable {t : CallTree} {id : NodeId} {n : Node}

def exclusiveTime (t : CallTree) (id : NodeId) : Float :=
  ((t.get? id).map Node.exclusiveTime).getD 0.0

def duration (t : CallTree) (id : NodeId) : Float :=
  ((t.get? id).map fun n => n.duration).getD 0.0

def key? (t : CallTree) (id : NodeId) : Option OperationKey :=
  (t.get? id).map OperationKey.of

/-- A call of the tree with timing data. -/
def Timed (t : CallTree) (id : NodeId) : Prop :=
  (t.get? id).any fun n => n.measurement.timer?.isSome

instance (t : CallTree) : DecidablePred t.Timed := fun _ => inferInstanceAs (Decidable (_ = true))

def untimed? (t : CallTree) (ids : List NodeId) : Option NodeId :=
  ids.find? fun id => !decide (t.Timed id)

def untimedFault (t : CallTree) (id : NodeId) : DiagnosisError :=
  if t.contains id then .missingTimingData id else .missingNode id

theorem exists_get? (h : t.contains id) : ∃ n, t.get? id = some n :=
  ⟨_, Array.getElem?_eq_getElem (contains_iff.mp h)⟩

private theorem contains_of_get? (h : t.get? id = some n) : t.contains id := by
  obtain ⟨hlt, -⟩ := Array.getElem?_eq_some_iff.mp h
  exact contains_iff.mpr hlt

theorem node_of_get? (h : t.get? id = some n) : t.node id = .ok n := by
  rw [node, h]

theorem diagnosedNode_of_get? (h : t.get? id = some n) : t.diagnosedNode id = .ok n := by
  rw [diagnosedNode, node_of_get? h]
  rfl

theorem diagnosedNode_of_foreign (h : ¬ t.contains id) :
    t.diagnosedNode id = .error (.missingNode id) := by
  rw [diagnosedNode, node, get?_of_foreign h]
  rfl

theorem exclusiveTime_of_get? (h : t.get? id = some n) :
    t.exclusiveTime id = n.exclusiveTime := by
  rw [exclusiveTime, h]
  rfl

theorem duration_of_get? (h : t.get? id = some n) : t.duration id = n.duration := by
  rw [duration, h]
  rfl

theorem key?_of_get? (h : t.get? id = some n) : t.key? id = some (.of n) := by
  rw [key?, h]
  rfl

theorem Timed.exists (h : t.Timed id) :
    ∃ n, t.get? id = some n ∧ n.measurement.timer?.isNone = false := by
  obtain ⟨n, hn, htimer⟩ := Option.any_eq_true _ _ |>.mp h
  refine ⟨n, hn, ?_⟩
  rw [← Option.not_isSome, htimer]
  rfl

theorem Timed.contains (h : t.Timed id) : t.contains id := by
  obtain ⟨n, hn, -⟩ := h.exists
  exact contains_of_get? hn

theorem timed_of_get? (h : t.get? id = some n) (htimer : n.measurement.timer?.isSome) :
    t.Timed id := by
  rw [Timed, h]
  exact htimer

theorem timed_of_hasSql (h : (t.get? id).any Node.hasSql = true) : t.Timed id := by
  obtain ⟨n, hn, hsql⟩ := Option.any_eq_true _ _ |>.mp h
  apply timed_of_get? hn
  cases hm : n.measurement with
  | none => simp [Node.hasSql, hm, Measurement.statement?] at hsql
  | timer | sql | http => rfl

variable {ids : List NodeId}

theorem untimed?_eq_none : t.untimed? ids = none ↔ ∀ id ∈ ids, t.Timed id := by
  simp [untimed?]

theorem untimed?_cons_of_timed (ids : List NodeId) (h : t.Timed id) :
    t.untimed? (id :: ids) = t.untimed? ids :=
  List.find?_cons_of_neg (by simpa using h)

theorem untimed?_cons_of_untimed (ids : List NodeId) (h : ¬ t.Timed id) :
    t.untimed? (id :: ids) = some id :=
  List.find?_cons_of_pos (by simpa using h)

theorem mem_of_untimed? (h : t.untimed? ids = some id) : id ∈ ids :=
  List.mem_of_find?_eq_some h

theorem not_timed_of_untimed? (h : t.untimed? ids = some id) : ¬ t.Timed id := by
  simpa using List.find?_some h

/-- The time of a call without timing data reads as none spent. -/
theorem exclusiveTime_of_untimed (h : ¬ t.Timed id) : t.exclusiveTime id = 0.0 := by
  cases hn : t.get? id with
  | none => rw [exclusiveTime, hn]; rfl
  | some n =>
    have htimer : n.measurement.timer? = none := by
      rw [Timed, hn] at h
      simpa using h
    rw [exclusiveTime_of_get? hn, Node.exclusiveTime, Node.exclusive?, htimer]
    rfl

theorem untimedFault_of_contains (h : t.contains id) :
    t.untimedFault id = .missingTimingData id := by
  rw [untimedFault, if_pos h]

/-- Whatever is to be done with a call, its timing data is asked for first. -/
theorem ask_untimed {α : Type} (h : ¬ t.Timed id) (use : Node → Except DiagnosisError α) :
    (do
      let n ← t.diagnosedNode id
      if n.measurement.timer?.isNone then .error (.missingTimingData id) else use n) =
      .error (t.untimedFault id) := by
  by_cases hid : t.contains id
  · obtain ⟨n, hn⟩ := exists_get? hid
    have htimer : n.measurement.timer?.isNone = true := by
      rw [Timed, hn] at h
      simpa using h
    rw [untimedFault_of_contains hid, diagnosedNode_of_get? hn]
    simp only [bind, Except.bind, htimer, if_true]
  · rw [untimedFault, if_neg hid, diagnosedNode_of_foreign hid]
    rfl

end CallTree
end SlowRequest
