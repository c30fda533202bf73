import SlowRequest.Proofs.Service.Harvest
/-! # A service with one producer -/
namespace SlowRequest

variable {g : DiagnosisGraph} {th : Thresholds} {n : Nat} {c : Custody} {s first : Service}
  {m : Machine} {settings : ServiceSettings} {audience : Audience}
  {requests : List DiagnosisRequest}

/-- What a service with `n` workers comes to that served one producer. -/
structure Service.Served (g : DiagnosisGraph) (n : Nat) (audience : Audience)
    (requests : List DiagnosisRequest) (s : Service) : Prop where
  ended : s.IsOver
  metrics : s.metrics =
    { accepted := UInt64.ofNat requests.length
      rejected := 0
      diagnosed := UInt64.ofNat requests.length
      failed := 0
      results := UInt64.ofNat (requests.flatMap (DiagnosisRequest.findings g)).length }
  audience : s.audience = audience.told s.notices
  delivered : (s.delivered.map Occurrence.anonymous).Perm
    (requests.flatMap (DiagnosisRequest.findings g))
  single : n = 1 →
    s.delivered = Occurrence.numbered 1 (requests.flatMap (DiagnosisRequest.findings g))

private theorem countP_isDiagnosed [NaNSums] (hg : diagnosisGraph th = .ok g)
    (tickets : List Ticket) :
    tickets.countP (Ticket.isDiagnosed g) = tickets.length ∧
      tickets.countP (fun t => !t.isDiagnosed g) = 0 := by
  have hall : ∀ t ∈ tickets, t.isDiagnosed g = true :=
    fun t _ => t.request.isDiagnosed_verdict hg
  refine ⟨List.countP_eq_length.mpr hall, List.countP_eq_zero.mpr ?_⟩
  intro t ht
  simp [hall t ht]

private theorem Custody.Accounted.metrics_eq [NaNSums] (hg : diagnosisGraph th = .ok g)
    (h : c.Accounted g s)
    (hresults : s.metrics.results = UInt64.ofNat (Custody.findingsOf g c.processed).length) :
    s.metrics =
      { accepted := UInt64.ofNat c.admitted.length
        rejected := UInt64.ofNat c.refused.length
        diagnosed := UInt64.ofNat c.processed.length
        failed := 0
        results := UInt64.ofNat (Custody.findingsOf g c.processed).length } := by
  obtain ⟨hdiagnosed, hfailed⟩ := countP_isDiagnosed hg c.processed
  have h₁ := h.accepted
  have h₂ := h.rejected
  have h₃ := h.diagnosed
  have h₄ := h.failed
  rw [hdiagnosed] at h₃
  rw [hfailed] at h₄
  cases hm : s.metrics
  simp_all

/-- A single worker that has nothing left told all it found, in the order of the sent requests. -/
theorem Custody.InLine.delivered_eq (h : c.InLine g s) (hsound : s.Sound g n c) (hn : 0 < n)
    (hover : s.IsOver) :
    s.delivered = Occurrence.numbered 1 (Custody.findingsOf g c.sent) := by
  obtain ⟨hqueue, hfree⟩ := hsound.orderly.ended hn hover.2
  obtain ⟨hcompleted, hprocessed⟩ := hsound.tracks.all_completed hsound.whole hqueue hfree
  have hsent : c.completed = c.sent := by
    have hprefix : c.completed <+: c.sent := by
      rw [h.sent, List.append_assoc]
      exact List.prefix_append ..
    exact hprefix.eq_of_length hcompleted.length_eq
  have hall : c.completed = c.processed := by
    have hprefix : c.completed <+: c.processed := by
      rw [h.processed]
      exact List.prefix_append ..
    exact hprefix.eq_of_length (hcompleted.length_eq.trans hprocessed.length_eq.symm)
  have htold : s.workers.flatMap (fun w => w.task.untold) = [] := by
    apply List.flatMap_eq_nil_iff.mpr
    intro w hw
    have hgone := Service.isConnected_eq_false_iff.mp (hsound.orderly.stopped hover.2) w hw
    rw [hgone]
    rfl
  have hfound := h.found
  rw [htold, List.append_nil, ← hall, hsent] at hfound
  exact hfound

namespace Service

private theorem exists_start [NaNSums]
    (hstart : start m settings (diagnosisRules th) audience = .ok first) :
    ∃ g, diagnosisGraph th = .ok g ∧ first.Sound g settings.workers (.new settings.workers) ∧
      (Custody.new settings.workers).Gathered g audience first ∧
      (settings.workers = 1 → (Custody.new settings.workers).InLine g first) := by
  obtain ⟨g, hg, -, -, rfl⟩ := start_eq_ok_iff.mp hstart
  refine ⟨g, hg, .ofGraph settings g audience _, ⟨rfl, rfl⟩, ?_⟩
  intro hone
  refine ⟨List.length_replicate.trans hone, ?_, ?_, ?_, rfl⟩
  · rw [hone]
    rfl
  · rw [hone]
    rfl
  · change ([] : List Occurrence) ++ (List.replicate settings.workers _).flatMap _ = _
    rw [hone]
    rfl

theorem Serves.served [NaNSums] (hstart : start m settings (diagnosisRules th) audience = .ok first)
    (hworkers : 0 < settings.workers) (h : Serves requests first s) :
    ∃ g, diagnosisGraph th = .ok g ∧ s.Served g settings.workers audience requests := by
  obtain ⟨g, hg, hsound, hgathered, hline⟩ := exists_start hstart
  obtain ⟨steps, hgoes, hprotocol⟩ := h
  obtain ⟨-, hrefused, hsent, hadmitted, hrequests⟩ :=
    Custody.of_protocol (n := settings.workers) hprotocol
  have hover := hsound.isOver hgoes hprotocol
  have hend := hsound.goes hgoes
  have hkept := hgathered.goes hsound hgoes
  change s.Sound g settings.workers (Custody.of settings.workers steps) at hend
  change (Custody.of settings.workers steps).Gathered g audience s at hkept
  obtain ⟨-, -, hprocessed⟩ := hend.over hworkers hover
  rw [hadmitted] at hprocessed
  have hfindings : (Custody.findingsOf g (Custody.of settings.workers steps).processed).Perm
      (requests.flatMap (DiagnosisRequest.findings g)) := by
    rw [← hrequests]
    exact (hprocessed.map Ticket.request).flatMap_right _
  refine ⟨g, hg, hover, ?_, hkept.audience, ?_, ?_⟩
  · have hlength : (Custody.of settings.workers steps).calls.length = requests.length := by
      rw [← hrequests, List.length_map]
    rw [hend.accounted.metrics_eq hg hkept.results, hadmitted, hrefused, hprocessed.length_eq,
      hlength, hfindings.length_eq]
    rfl
  · have hdelivered := hend.delivered_perm hworkers hover
    rwa [hadmitted, hrequests] at hdelivered
  · intro hone
    have hdelivered := ((hline hone).goes hg hsound hgoes).delivered_eq hend hworkers hover
    rw [← hrequests, ← hsent]
    exact hdelivered

end Service
end SlowRequest
