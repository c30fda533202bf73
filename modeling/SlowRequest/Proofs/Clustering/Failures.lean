import SlowRequest.Proofs.Clustering.Completion
namespace SlowRequest

namespace Clustering

open CallTree (Encloses)

variable {t : CallTree} {start id : NodeId} {operation : Aggregate} {ids : List NodeId}

theorem singles_of_untimed (h : t.untimed? ids = some id) :
    singles t ids = .error (t.untimedFault id) := by
  induction ids with
  | nil => cases h
  | cons x ids ih =>
    by_cases hx : t.Timed x
    · rw [CallTree.untimed?_cons_of_timed ids hx] at h
      obtain ⟨n, hn, htimer⟩ := hx.exists
      rw [singles, CallTree.diagnosedNode_of_get? hn, ih h]
      simp only [bind, Except.bind, htimer]
      rfl
    · rw [CallTree.untimed?_cons_of_untimed ids hx] at h
      cases h
      exact CallTree.ask_untimed hx _

theorem cluster_of_untimed (th : Thresholds)
    (h : t.untimed? operation.members.toList = some id) :
    cluster th t start operation = .error (t.untimedFault id) := by
  rw [cluster, run, singles_of_untimed h]
  rfl

theorem cluster_of_no_calls (th : Thresholds) (h : operation.members.toList = []) :
    cluster th t start operation = .error .emptyCause := by
  rw [cluster, run, h]
  rfl

theorem cluster_of_timed (th : Thresholds) (t : CallTree) (start : NodeId)
    (hne : operation.members.toList ≠ []) (htimed : ∀ id ∈ operation.members.toList, t.Timed id) :
    ∃ c, cluster th t start operation = .ok c ∧
      ((∀ id ∈ operation.members.toList, t.Encloses start id) → t.Encloses start c.context) := by
  obtain ⟨p, how, hrun, hcourse⟩ := run_course th t start hne htimed
  refine ⟨p.toCluster, by rw [cluster, hrun]; rfl, ?_⟩
  intro hbelow
  exact (hcourse.sound (sound_opening_of_encloses hbelow)).below

/-- A clustering fails exactly for want of calls, or for a call that is not timed, the first such
call being named; never on a climb. Calls below `start` have their context below it. -/
theorem cluster_fails_iff (th : Thresholds) (t : CallTree) (start : NodeId)
    (operation : Aggregate) :
    (∀ e, cluster th t start operation = .error e ↔
      operation.members.toList = [] ∧ e = .emptyCause ∨
        ∃ id, t.untimed? operation.members.toList = some id ∧ e = t.untimedFault id) ∧
    (∀ node walked requested,
      cluster th t start operation ≠ .error (.brokenParentChain node walked requested)) ∧
    ∀ c, cluster th t start operation = .ok c →
      (∀ id ∈ operation.members.toList, t.Encloses start id) → t.Encloses start c.context := by
  by_cases hne : operation.members.toList = []
  · rw [cluster_of_no_calls th hne, hne]
    refine ⟨fun e => ?_, fun _ _ _ h => (by cases h), fun c h => (by cases h)⟩
    simp [CallTree.untimed?, eq_comm]
  · cases hfirst : t.untimed? operation.members.toList with
    | some id =>
      rw [cluster_of_untimed th hfirst]
      refine ⟨fun e => ?_, fun _ _ _ h => ?_, fun c h => (by cases h)⟩
      · simp [hne, eq_comm]
      · rw [CallTree.untimedFault] at h
        split at h <;> cases h
    | none =>
      obtain ⟨c, hc, hbelow⟩ :=
        cluster_of_timed th t start hne (CallTree.untimed?_eq_none.mp hfirst)
      rw [hc]
      refine ⟨fun e => ?_, fun _ _ _ h => (by cases h), fun c' h => ?_⟩
      · simp [hne]
      · cases h
        exact hbelow

def shuffledOperation : Aggregate :=
  ⟨⟨7, none, none⟩, #[⟨4⟩, ⟨2⟩, ⟨4⟩, ⟨3⟩], #[100.0, 100.0, 100.0, 100.0], 400.0, 400.0⟩

theorem cluster_fails_iff_shuffled :
    (∀ id ∈ shuffledOperation.members.toList, fork.Encloses ⟨0⟩ id) ∧
      ∃ c, cluster .default fork ⟨0⟩ shuffledOperation = .ok c ∧ fork.Encloses ⟨0⟩ c.context := by
  have hbelow : ∀ id ∈ shuffledOperation.members.toList, fork.Encloses ⟨0⟩ id := by
    decide +kernel
  obtain ⟨hfails, -, hcontext⟩ := cluster_fails_iff .default fork ⟨0⟩ shuffledOperation
  cases hc : cluster .default fork ⟨0⟩ shuffledOperation with
  | ok c => exact ⟨hbelow, c, rfl, hcontext c hc hbelow⟩
  | error e =>
    have htimed : fork.untimed? shuffledOperation.members.toList = none := by decide +kernel
    rcases (hfails e).mp hc with ⟨hnil, -⟩ | ⟨id, hid, -⟩
    · cases hnil
    · rw [htimed] at hid
      cases hid

end Clustering
end SlowRequest
