import SlowRequest.Proofs.Results.Hearing
import SlowRequest.Proofs.Service.Custody
import SlowRequest.Proofs.Service.Verdict
namespace SlowRequest

def Notice.anonymous : Notice → Notice
  | result o => .result o.anonymous
  | results batch => .results (batch.map Occurrence.anonymous)
  | failure e => .failure e

theorem Notice.occurrences_anonymous (n : Notice) :
    n.anonymous.occurrences = n.occurrences.map Occurrence.anonymous := by
  cases n <;> rfl

namespace Outcome

private theorem notice?_anonymous (o : Outcome) :
    o.anonymous.notice? = o.notice?.map Notice.anonymous := by
  cases o with
  | diagnosed occurrences => cases occurrences <;> rfl
  | unassembled e => rfl
  | failed e => rfl

def isDiagnosed : Outcome → Bool
  | diagnosed _ => true
  | unassembled _ | failed _ => false

theorem isDiagnosed_eq (o : Outcome) : o.isDiagnosed = o.anonymous.isDiagnosed := by
  cases o <;> rfl

private theorem count_eq (o : Outcome) (m : Metrics) :
    (o.count m).accepted = m.accepted ∧ (o.count m).rejected = m.rejected ∧
      (o.count m).diagnosed = m.diagnosed + (if o.isDiagnosed then 1 else 0) ∧
      (o.count m).failed = m.failed + (if o.isDiagnosed then 0 else 1) := by
  cases o with
  | diagnosed occurrences => exact ⟨rfl, rfl, rfl, (UInt64.add_zero _).symm⟩
  | unassembled e => exact ⟨rfl, rfl, (UInt64.add_zero _).symm, rfl⟩
  | failed e => exact ⟨rfl, rfl, (UInt64.add_zero _).symm, rfl⟩

end Outcome

/-- A worker whose session is at rest and whose outcome is the verdict of its request. -/
structure Worker.Faithful (g : DiagnosisGraph) (w : Worker) : Prop where
  rested : w.session.Same (Session.new g)
  judged : ∀ r o, w.task = .telling r o → o.anonymous = r.verdict g

variable {c : Custody} {s u : Service} {st : Service.Step} {g : DiagnosisGraph}

/-- Workers stay faithful whatever they diagnosed before. -/
theorem Worker.faithful_after (h : ∀ w ∈ s.workers, w.Faithful g) (hm : s.Move st u) :
    ∀ w ∈ u.workers, w.Faithful g := by
  cases hm with
  | offer r => exact h
  | send hoffer => exact h
  | retry hoffer log => exact h
  | confirm hoffer => exact h
  | turnAway hoffer hunsent log => exact h
  | take hworker hqueue =>
    have hw := h _ (List.mem_of_getElem? hworker)
    exact forall_mem_set h ⟨hw.rested, fun r o ho => Task.noConfusion ho⟩
  | @diagnose i session r hworker log =>
    have hw := h _ (List.mem_of_getElem? hworker)
    have hrested := DiagnosisSession.rested_diagnose hw.rested.graph s.next r
    refine forall_mem_set h ⟨hrested, ?_⟩
    intro r' o ho
    cases ho
    exact DiagnosisSession.anonymous_diagnose_eq_verdict hw.rested s.next r
  | tell hworker audience log =>
    have hw := h _ (List.mem_of_getElem? hworker)
    exact forall_mem_set h ⟨hw.rested, fun r o ho => Task.noConfusion ho⟩
  | leave hworker hqueue hsenders =>
    have hw := h _ (List.mem_of_getElem? hworker)
    exact forall_mem_set h ⟨hw.rested, fun r o ho => Task.noConfusion ho⟩
  | close hrunning => exact h
  | join hclosed hgone log => exact h

namespace Ticket

def notice? (g : DiagnosisGraph) (t : Ticket) : Option Notice := (t.request.verdict g).notice?

def isDiagnosed (g : DiagnosisGraph) (t : Ticket) : Bool := (t.request.verdict g).isDiagnosed

end Ticket

namespace Custody

/-- The books of a service: what was told, and what was counted. -/
structure Accounted (g : DiagnosisGraph) (c : Custody) (s : Service) : Prop where
  notices : s.notices.map Notice.anonymous = c.completed.filterMap (Ticket.notice? g)
  accepted : s.metrics.accepted = UInt64.ofNat c.admitted.length
  rejected : s.metrics.rejected = UInt64.ofNat c.refused.length
  diagnosed : s.metrics.diagnosed = UInt64.ofNat (c.processed.countP (Ticket.isDiagnosed g))
  failed : s.metrics.failed = UInt64.ofNat (c.processed.countP fun t => !t.isDiagnosed g)

private theorem ofNat_length_concat {α : Type} (l : List α) (x : α) :
    UInt64.ofNat (l ++ [x]).length = UInt64.ofNat l.length + 1 := by
  rw [List.length_append, UInt64.ofNat_add]
  rfl

private theorem ofNat_countP_concat {α : Type} (p : α → Bool) (l : List α) (x : α) :
    UInt64.ofNat ((l ++ [x]).countP p) = UInt64.ofNat (l.countP p) + if p x then 1 else 0 := by
  rw [List.countP_append, UInt64.ofNat_add, List.countP_singleton]
  cases p x <;> rfl

theorem Accounted.after (h : c.Accounted g s) (hw : ∀ w ∈ s.workers, w.Faithful g)
    (ht : c.Tracks s) (hm : s.Move st u) : (c.after st).Accounted g u := by
  cases hm with
  | offer r => exact ⟨h.notices, h.accepted, h.rejected, h.diagnosed, h.failed⟩
  | send hoffer =>
    obtain ⟨t, hx, -⟩ := ht.offer_at hoffer
    simp only [Custody.after, hx]
    exact ⟨h.notices, h.accepted, h.rejected, h.diagnosed, h.failed⟩
  | retry hoffer log => exact ⟨h.notices, h.accepted, h.rejected, h.diagnosed, h.failed⟩
  | confirm hoffer =>
    obtain ⟨t, hx, -⟩ := ht.offer_at hoffer
    simp only [Custody.after, hx]
    refine ⟨h.notices, ?_, h.rejected, h.diagnosed, h.failed⟩
    rw [ofNat_length_concat, ← h.accepted]
    rfl
  | turnAway hoffer hunsent log =>
    obtain ⟨t, hx, -⟩ := ht.offer_at hoffer
    simp only [Custody.after, hx]
    refine ⟨h.notices, h.accepted, ?_, h.diagnosed, h.failed⟩
    rw [ofNat_length_concat, ← h.rejected]
    rfl
  | take hworker hqueue =>
    obtain ⟨t, queued, hq, -, -⟩ := ht.next_queued hqueue
    simp only [Custody.after, hq]
    exact ⟨h.notices, h.accepted, h.rejected, h.diagnosed, h.failed⟩
  | @diagnose i session r hworker log =>
    obtain ⟨t, hx, hr⟩ := ht.held_at hworker rfl
    simp only [Custody.after, hx]
    have hrested := (hw _ (List.mem_of_getElem? hworker)).rested
    have hclass : (session.diagnose s.next r).outcome.isDiagnosed = t.isDiagnosed g := by
      rw [Ticket.isDiagnosed, hr, Outcome.isDiagnosed_eq,
        DiagnosisSession.anonymous_diagnose_eq_verdict hrested s.next r]
    obtain ⟨haccepted, hrejected, hdiagnosed, hfailed⟩ :=
      (session.diagnose s.next r).outcome.count_eq s.metrics
    rw [hclass] at hdiagnosed hfailed
    refine ⟨h.notices, haccepted.trans h.accepted, hrejected.trans h.rejected, ?_, ?_⟩
    · rw [hdiagnosed, h.diagnosed, ofNat_countP_concat]
    · rw [hfailed, h.failed, ofNat_countP_concat]
      cases t.isDiagnosed g <;> rfl
  | @tell i session r outcome hworker audience log =>
    obtain ⟨t, hx, hr⟩ := ht.held_at hworker rfl
    simp only [Custody.after, hx]
    have hjudged := (hw _ (List.mem_of_getElem? hworker)).judged r outcome rfl
    have hnotice : t.notice? g = outcome.notice?.map Notice.anonymous := by
      rw [Ticket.notice?, hr, ← hjudged, Outcome.notice?_anonymous]
    refine ⟨?_, h.accepted, h.rejected, h.diagnosed, h.failed⟩
    rw [List.map_append, h.notices, List.filterMap_append, List.filterMap_cons, hnotice]
    cases outcome.notice? <;> rfl
  | leave hworker hqueue hsenders =>
    exact ⟨h.notices, h.accepted, h.rejected, h.diagnosed, h.failed⟩
  | close hrunning => exact ⟨h.notices, h.accepted, h.rejected, h.diagnosed, h.failed⟩
  | join hclosed hgone log => exact ⟨h.notices, h.accepted, h.rejected, h.diagnosed, h.failed⟩

/-! ## The counters of answered calls -/

theorem countP_add_countP (g : DiagnosisGraph) (tickets : List Ticket) :
    tickets.countP (Ticket.isDiagnosed g) + tickets.countP (fun t => !t.isDiagnosed g) =
      tickets.length := by
  rw [List.length_eq_countP_add_countP (Ticket.isDiagnosed g)]
  simp

namespace Accounted

theorem total (h : c.Accounted g s) (hcalls : c.calls.Perm (c.admitted ++ c.refused)) :
    s.metrics.accepted + s.metrics.rejected = UInt64.ofNat c.calls.length := by
  rw [h.accepted, h.rejected, ← UInt64.ofNat_add, ← List.length_append, hcalls.length_eq]

theorem balanced (h : c.Accounted g s) (hprocessed : c.processed.Perm c.admitted) :
    s.metrics.accepted = s.metrics.diagnosed + s.metrics.failed := by
  rw [h.accepted, h.diagnosed, h.failed, ← UInt64.ofNat_add, countP_add_countP,
    hprocessed.length_eq]

/-- Counters that have not wrapped around add up as numbers. -/
theorem toNat_eq (h : c.Accounted g s) (hcalls : c.calls.Perm (c.admitted ++ c.refused))
    (hprocessed : c.processed.Perm c.admitted) (hlt : c.calls.length < 2 ^ 64) :
    s.metrics.accepted.toNat + s.metrics.rejected.toNat = c.calls.length ∧
      s.metrics.accepted.toNat = s.metrics.diagnosed.toNat + s.metrics.failed.toNat := by
  change c.calls.length < UInt64.size at hlt
  have hlength := hcalls.length_eq
  have hboth := countP_add_countP g c.processed
  rw [List.length_append] at hlength
  rw [hprocessed.length_eq] at hboth
  rw [h.accepted, h.rejected, h.diagnosed, h.failed, UInt64.toNat_ofNat_of_lt',
    UInt64.toNat_ofNat_of_lt', UInt64.toNat_ofNat_of_lt', UInt64.toNat_ofNat_of_lt']
  · omega
  all_goals omega

end Accounted
end Custody
end SlowRequest
