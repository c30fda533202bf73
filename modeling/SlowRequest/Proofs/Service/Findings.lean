import SlowRequest.Proofs.Diagnosis.Branches
import SlowRequest.Proofs.Occurrence.Numbering
import SlowRequest.Proofs.Service.Delivery
namespace SlowRequest

variable {th : Thresholds} {g : DiagnosisGraph} {r : DiagnosisRequest} {o : Occurrence}

namespace Outcome

def occurrences : Outcome → List Occurrence
  | diagnosed occurrences => occurrences
  | unassembled _ | failed _ => []

theorem occurrences_anonymous (o : Outcome) :
    o.anonymous.occurrences = o.occurrences.map Occurrence.anonymous := by
  cases o <;> rfl

theorem flatMap_notice? (o : Outcome) :
    o.notice?.toList.flatMap Notice.occurrences = o.occurrences := by
  cases o with
  | diagnosed occurrences =>
    cases occurrences with
    | nil => rfl
    | cons o os => simp [notice?, Notice.occurrences, occurrences]
  | unassembled e => rfl
  | failed e => rfl

theorem results_count (o : Outcome) (m : Metrics) :
    (o.count m).results = m.results + UInt64.ofNat o.occurrences.length := by
  cases o with
  | diagnosed occurrences => rfl
  | unassembled e => exact (UInt64.add_zero _).symm
  | failed e => exact (UInt64.add_zero _).symm

end Outcome

namespace DiagnosisRequest

private theorem findings_eq (g : DiagnosisGraph) (r : DiagnosisRequest) :
    r.findings g = (r.verdict g).occurrences := Outcome.flatMap_notice? _

theorem exists_verdict [NaNSums] (hg : diagnosisGraph th = .ok g) (r : DiagnosisRequest) :
    ∃ F os last, Finished th r.tree r.baseline F ∧ Occurrence.collect F 0 = (.ok os, last) ∧
      r.verdict g = .diagnosed (os.map Occurrence.anonymous) := by
  obtain ⟨F, hfinished⟩ := exists_finished th r.tree r.baseline
  obtain ⟨os, last, hcollect, -⟩ := hfinished.staged.collect_ok 0
  refine ⟨F, os, last, hfinished, hcollect, ?_⟩
  rw [diagnosisGraph_eq] at hg
  cases hg
  rw [verdict, DiagnosisSession.diagnose]
  simp only [Session.activate, Session.new, Session.call, if_true, List.append_nil, hfinished.run,
    hcollect]
  rfl

theorem isDiagnosed_verdict [NaNSums] (hg : diagnosisGraph th = .ok g) (r : DiagnosisRequest) :
    (r.verdict g).isDiagnosed = true := by
  obtain ⟨F, os, last, -, -, hverdict⟩ := exists_verdict hg r
  rw [hverdict]
  rfl

private theorem invocation_of_requestRoot {c : CallReference}
    (h : CallReference.of r.tree r.tree.root = .ok c) : c.invocationId = r.invocation := by
  obtain ⟨n, hn⟩ := CallTree.exists_get? (contains_root r.tree)
  rw [CallReference.of, CallTree.node_of_get? hn] at h
  cases h
  rw [invocation, hn]
  rfl

theorem requestRoot_of_mem_findings [NaNSums] (hg : diagnosisGraph th = .ok g)
    (ho : o ∈ r.findings g) :
    o.requestRoot.invocationId = r.invocation := by
  obtain ⟨F, os, last, hfinished, hcollect, hverdict⟩ := exists_verdict hg r
  rw [findings_eq, hverdict] at ho
  obtain ⟨found, hfound, rfl⟩ := List.mem_map.mp ho
  obtain ⟨n, hn⟩ := CallTree.exists_get? (contains_root r.tree)
  rw [Occurrence.collect, hfinished.staged.root] at hcollect
  simp only [Finding.require, Finding.request?, Option.bind_some, bind, Except.bind,
    CallTree.diagnosedNode_of_get? hn] at hcollect
  have hroot := Occurrence.assemble_requestRoot hcollect hfound
  exact invocation_of_requestRoot hroot

end DiagnosisRequest

namespace DiagnosisSession

variable {s : DiagnosisSession}

theorem map_anonymous_occurrences (h : s.Same (Session.new g)) (next : UInt64)
    (r : DiagnosisRequest) :
    (s.diagnose next r).outcome.occurrences.map Occurrence.anonymous = r.findings g := by
  rw [← Outcome.occurrences_anonymous, anonymous_diagnose_eq_verdict h,
    DiagnosisRequest.findings_eq]

/-- A session at rest finds what there is to find and numbers it from the first free number on. -/
theorem diagnose_findings [NaNSums] (hg : diagnosisGraph th = .ok g) (h : s.Same (Session.new g))
    (next : UInt64) (r : DiagnosisRequest) :
    (s.diagnose next r).outcome.occurrences = Occurrence.numbered next (r.findings g) ∧
      (s.diagnose next r).next = next + UInt64.ofNat (r.findings g).length := by
  have hfindings := map_anonymous_occurrences h next r
  have hdiagnosed : (s.diagnose next r).outcome.isDiagnosed = true := by
    rw [Outcome.isDiagnosed_eq, anonymous_diagnose_eq_verdict h,
      DiagnosisRequest.isDiagnosed_verdict hg]
  cases houtcome : (s.diagnose next r).outcome with
  | diagnosed os =>
    obtain ⟨hnumbered, hnext⟩ := diagnose_numbered houtcome
    rw [houtcome] at hfindings
    change os.map Occurrence.anonymous = r.findings g at hfindings
    rw [hnext, ← hfindings, Occurrence.numbered_map_anonymous, List.length_map]
    exact ⟨hnumbered, rfl⟩
  | unassembled e => simp [houtcome, Outcome.isDiagnosed] at hdiagnosed
  | failed e => simp [houtcome, Outcome.isDiagnosed] at hdiagnosed

end DiagnosisSession
end SlowRequest
