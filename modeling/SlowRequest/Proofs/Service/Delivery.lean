import SlowRequest.Desktop
import SlowRequest.Proofs.Service.Accounting
import SlowRequest.Proofs.Service.Closing
import SlowRequest.Proofs.Service.Starting
/-!
# Every request once

Over every run of a service, in any order of the steps of its producers, its workers and its owner,
no request is lost or taken twice. What the listeners of a finished run were told depends on the
admitted requests alone.
-/
namespace SlowRequest

open Service (Step)

variable {g : DiagnosisGraph} {n : Nat} {c : Custody} {s u : Service} {st : Step}
  {steps : List Step} {m : Machine} {settings : ServiceSettings} {rules : List DiagnosisRule}
  {audience : Audience}

/-- All that holds of a service and its custody between any two steps. -/
structure Service.Sound (g : DiagnosisGraph) (n : Nat) (c : Custody) (s : Service) : Prop where
  tracks : c.Tracks s
  whole : c.Whole
  faithful : ∀ w ∈ s.workers, w.Faithful g
  accounted : c.Accounted g s
  orderly : s.Orderly n

namespace Service.Sound

theorem after (h : Sound g n c s) (hm : s.Move st u) : Sound g n (c.after st) u where
  tracks := h.tracks.after hm
  whole := h.whole.after h.tracks hm
  faithful := Worker.faithful_after h.faithful hm
  accounted := h.accounted.after h.faithful h.tracks hm
  orderly := h.orderly.after hm

theorem run (h : Sound g n c s) (hrun : s.run steps = some u) :
    Sound g n (steps.foldl Custody.after c) u := by
  induction steps generalizing c s with
  | nil =>
    cases hrun
    exact h
  | cons st steps ih =>
    obtain ⟨t, hstep, hrest⟩ := Service.run_cons_eq_some hrun
    exact ih (h.after (Service.move_of_step hstep)) hrest

theorem ofGraph (settings : ServiceSettings) (g : DiagnosisGraph) (audience : Audience)
    (events : List Log.Event) :
    Sound g settings.workers (.new settings.workers)
      ((Service.ofGraph settings g audience).speak events) where
  tracks := by
    have h := Custody.Tracks.new settings g audience
    exact ⟨h.offered, h.queue, h.workers⟩
  whole := .new settings.workers
  faithful := by
    intro w hw
    rw [List.eq_of_mem_replicate hw]
    exact ⟨⟨rfl, rfl, rfl, rfl⟩, fun r o ho => Task.noConfusion ho⟩
  accounted := ⟨rfl, rfl, rfl, rfl, rfl⟩
  orderly := by
    have h := Service.Orderly.ofGraph settings g audience
    exact ⟨h.pool, h.gone, h.stopped⟩

end Service.Sound

private theorem Service.Sound.of_start (hstart : Service.start m settings rules audience = .ok s) :
    ∃ g, RuleGraph.register Tag.root rules = .ok g ∧
      Sound g settings.workers (.new settings.workers) s := by
  obtain ⟨g, hg, -, -, rfl⟩ := Service.start_eq_ok_iff.mp hstart
  exact ⟨g, hg, .ofGraph settings g audience _⟩

/-- Every step that brings a request further is one of three for each sent request. -/
theorem Service.Sound.effort_run (h : Sound g n c s) (hrun : s.run steps = some u) :
    (steps.foldl Custody.after c).queued.length + c.effort + steps.countP Step.isWork =
      c.queued.length + (steps.foldl Custody.after c).effort := by
  induction steps generalizing c s with
  | nil => rfl
  | cons st steps ih =>
    obtain ⟨t, hstep, hrest⟩ := Service.run_cons_eq_some hrun
    have hmove := Service.move_of_step hstep
    have hfirst := Custody.effort_after h.tracks hmove
    have hlater := ih (h.after hmove) hrest
    rw [List.foldl_cons, List.countP_cons]
    rw [List.countP_singleton] at hfirst
    omega

/-! ## The end of a run -/

/-- All calls have returned, and so has the shutdown. -/
def Service.IsOver (s : Service) : Prop := s.offered = [] ∧ s.isStopped = true

/-- The occurrences that the listeners were told of. -/
def Service.delivered (s : Service) : List Occurrence := s.notices.flatMap Notice.occurrences

theorem Service.Sound.over (h : Sound g n c s) (hn : 0 < n) (hover : s.IsOver) :
    c.calls.Perm (c.admitted ++ c.refused) ∧ c.completed.Perm c.admitted ∧
      c.processed.Perm c.admitted := by
  obtain ⟨hqueue, hfree⟩ := h.orderly.ended hn hover.2
  obtain ⟨hcompleted, hprocessed⟩ := h.tracks.all_completed h.whole hqueue hfree
  obtain ⟨hcalls, hsent⟩ := h.tracks.all_answered h.whole hover.1
  exact ⟨hcalls, hcompleted.trans hsent, hprocessed.trans hsent⟩

/-- What the listeners are told of one request, without numbers. -/
def DiagnosisRequest.findings (g : DiagnosisGraph) (r : DiagnosisRequest) : List Occurrence :=
  (r.verdict g).notice?.toList.flatMap Notice.occurrences

private theorem flatMap_filterMap {α β γ : Type} (f : α → Option β) (k : β → List γ) (l : List α) :
    (l.filterMap f).flatMap k = l.flatMap fun x => (f x).toList.flatMap k := by
  induction l with
  | nil => rfl
  | cons x l ih =>
    rw [List.filterMap_cons, List.flatMap_cons]
    cases hx : f x with
    | none => exact ih
    | some y =>
      rw [List.flatMap_cons, ih, Option.toList_some, List.flatMap_singleton]

theorem Service.Sound.delivered_eq (h : Sound g n c s) :
    s.delivered.map Occurrence.anonymous =
      (c.completed.map Ticket.request).flatMap (DiagnosisRequest.findings g) := by
  calc s.delivered.map Occurrence.anonymous
      = (s.notices.map Notice.anonymous).flatMap Notice.occurrences := by
        rw [Service.delivered, List.map_flatMap, List.flatMap_map]
        simp only [Notice.occurrences_anonymous]
    _ = (c.completed.filterMap (Ticket.notice? g)).flatMap Notice.occurrences := by
        rw [h.accounted.notices]
    _ = (c.completed.map Ticket.request).flatMap (DiagnosisRequest.findings g) := by
        rw [flatMap_filterMap, List.flatMap_map]
        rfl

/-- In the end the admitted requests alone tell what was delivered. -/
theorem Service.Sound.delivered_perm (h : Sound g n c s) (hn : 0 < n) (hover : s.IsOver) :
    (s.delivered.map Occurrence.anonymous).Perm
      ((c.admitted.map Ticket.request).flatMap (DiagnosisRequest.findings g)) := by
  rw [h.delivered_eq]
  exact ((h.over hn hover).2.1.map Ticket.request).flatMap_right _

/-- At any moment the sent requests are those that wait, are in hand or are completed, each in one
place; no refused one is processed, and while one is not processed a worker can go on. When all
calls and the shutdown have returned, every admitted request was processed once and counted, and
any other run that admitted the same requests delivered the same occurrences. -/
theorem Service.requests_conserved {first : Service}
    (hstart : start m settings rules audience = .ok first) (hworkers : 0 < settings.workers)
    (hrun : first.run steps = some s) :
    let c := Custody.of settings.workers steps
    (c.Tracks s ∧ (c.sent : Multiset Ticket) = c.queued + c.inHand + c.completed ∧
      c.sent.Nodup) ∧
    (c.processed.Nodup ∧ c.processed ⊆ c.sent ∧ c.admitted ⊆ c.sent ∧
      c.sent.Disjoint c.refused) ∧
    (steps.countP Step.isWork ≤ 3 * c.sent.length ∧
      (¬ s.CanWork → c.processed.Perm c.sent)) ∧
    (s.IsOver →
      c.calls.Perm (c.admitted ++ c.refused) ∧ c.processed.Perm c.admitted ∧
      s.metrics.accepted + s.metrics.rejected = UInt64.ofNat c.calls.length ∧
      s.metrics.accepted = s.metrics.diagnosed + s.metrics.failed ∧
      (c.calls.length < 2 ^ 64 →
        s.metrics.accepted.toNat + s.metrics.rejected.toNat = c.calls.length ∧
        s.metrics.accepted.toNat = s.metrics.diagnosed.toNat + s.metrics.failed.toNat) ∧
      ∀ {m' : Machine} {settings' : ServiceSettings} {audience' : Audience} {first' s' : Service}
        {steps' : List Step},
        start m' settings' rules audience' = .ok first' → 0 < settings'.workers →
        first'.run steps' = some s' → s'.IsOver →
        (c.admitted.map Ticket.request).Perm
          ((Custody.of settings'.workers steps').admitted.map Ticket.request) →
        (s.delivered.map Occurrence.anonymous).Perm (s'.delivered.map Occurrence.anonymous)) := by
  intro c
  obtain ⟨g, hg, hfirst⟩ := Sound.of_start hstart
  have h : Sound g settings.workers c s := hfirst.run hrun
  refine ⟨⟨h.tracks, h.whole.placed, h.whole.nodup_sent⟩, ⟨?_, ?_, ?_, ?_⟩, ⟨?_, ?_⟩, ?_⟩
  · exact Multiset.nodup_of_le h.whole.processed_le h.whole.nodup_sent
  · exact Multiset.subset_of_le h.whole.processed_le
  · exact Multiset.subset_of_le h.whole.admitted_le
  · exact h.whole.disjoint_sent_refused
  · have heffort : c.queued.length + 0 + steps.countP Step.isWork = 0 + c.effort :=
      hfirst.effort_run hrun
    have hmost := h.whole.effort_le
    omega
  · intro hstuck
    obtain ⟨hqueue, hfree⟩ := h.orderly.finished hworkers hstuck
    exact (h.tracks.all_completed h.whole hqueue hfree).2
  · intro hover
    obtain ⟨hcalls, -, hprocessed⟩ := h.over hworkers hover
    refine ⟨hcalls, hprocessed, h.accounted.total hcalls,
      h.accounted.balanced hprocessed, h.accounted.toNat_eq hcalls hprocessed, ?_⟩
    intro m' settings' audience' first' s' steps' hstart' hworkers' hrun' hover' hadmitted
    obtain ⟨g', hg', hfirst'⟩ := Sound.of_start hstart'
    -- Both services run the one graph of the rules, so they find the same in a request.
    cases Except.ok.inj (hg.symm.trans hg')
    have h' := hfirst'.run hrun'
    exact (h.delivered_perm hworkers hover).trans
      ((hadmitted.flatMap_right _).trans (h'.delivered_perm hworkers' hover').symm)

/-! ## Two runs on the same requests -/

def lonelyRequest (method : UInt64) : DiagnosisRequest :=
  let call : Call :=
    { method, duration := 5000.0, measurement := .timer ⟨5000.0, some 5000.0, 0.0, 1⟩,
      invocationId := 0, timestamp := .epoch, application := 0, businessTransaction := 0 }
  let b := CallTree.Builder.ofRoot call
  ⟨⟨b.nodes, b.consistent, by simp [b, CallTree.Builder.ofRoot, Arena.link]⟩, 500.0⟩

/-- Two workers and three producers. The second producer still waits for room when the service is
closed, the third comes too late. -/
def overlapping : List Step :=
  [.offer (lonelyRequest 1), .send 0, .offer (lonelyRequest 2), .retry 1, .take 0, .confirm 0,
    .close, .offer (lonelyRequest 3), .send 0, .turnAway 1, .diagnose 0, .take 1, .confirm 0,
    .tell 0, .leave 0, .diagnose 1, .tell 1, .leave 1, .join]

def oneByOne : List Step :=
  [.offer (lonelyRequest 2), .send 0, .confirm 0, .take 0, .diagnose 0, .tell 0,
    .offer (lonelyRequest 1), .send 0, .take 0, .diagnose 0, .tell 0, .confirm 0, .close,
    .leave 0, .join]

open Desktop

def left? (settings : ServiceSettings) (steps : List Step) : Option Service :=
  (Service.start machine settings (diagnosisRules .default) []).toOption.bind (·.run steps)

private theorem exists_run_of_left? {n : Nat}
    (h : ((left? settings steps).map fun s =>
      (s.offered.isEmpty, s.isStopped, s.delivered.length)) = some (true, true, n)) :
    ∃ first s, Service.start machine settings (diagnosisRules .default) [] = .ok first ∧
      first.run steps = some s ∧ s.IsOver ∧ s.delivered.length = n := by
  obtain ⟨s, hs, hread⟩ := Option.map_eq_some_iff.mp h
  obtain ⟨first, hfirst, hrun⟩ := Option.bind_eq_some_iff.mp hs
  obtain ⟨hoffered, hstopped, hlength⟩ := by simpa only [Prod.mk.injEq] using hread
  exact ⟨first, s, Except.eq_ok_of_toOption hfirst, hrun, ⟨List.isEmpty_iff.mp hoffered, hstopped⟩,
    hlength⟩

theorem Service.requests_conserved_overlapping :
    ∃ first s first' s',
      start machine ⟨2, 1, 20, 2, 100⟩ (diagnosisRules .default) [] = .ok first ∧
      first.run overlapping = some s ∧ s.IsOver ∧ s.delivered.length = 2 ∧
      start machine ⟨1, 0, 20, 2, 100⟩ (diagnosisRules .default) [] = .ok first' ∧
      first'.run oneByOne = some s' ∧ s'.IsOver ∧
      s.metrics.accepted + s.metrics.rejected = 3 ∧
      s.metrics.accepted = s.metrics.diagnosed + s.metrics.failed ∧
      (s.delivered.map Occurrence.anonymous).Perm (s'.delivered.map Occurrence.anonymous) := by
  have hoverlapping : ((left? ⟨2, 1, 20, 2, 100⟩ overlapping).map fun s =>
      (s.offered.isEmpty, s.isStopped, s.delivered.length)) = some (true, true, 2) := by
    decide +kernel
  have honeByOne : ((left? ⟨1, 0, 20, 2, 100⟩ oneByOne).map fun s =>
      (s.offered.isEmpty, s.isStopped, s.delivered.length)) = some (true, true, 2) := by
    decide +kernel
  obtain ⟨first, s, hstart, hrun, hover, hlength⟩ := exists_run_of_left? hoverlapping
  obtain ⟨first', s', hstart', hrun', hover', -⟩ := exists_run_of_left? honeByOne
  obtain ⟨-, -, -, hend⟩ := requests_conserved hstart (by decide) hrun
  obtain ⟨-, -, htotal, hbalanced, -, hsame⟩ := hend hover
  have hadmitted : ((Custody.of 2 overlapping).admitted.map Ticket.request).Perm
      ((Custody.of 1 oneByOne).admitted.map Ticket.request) := List.Perm.swap ..
  exact ⟨first, s, first', s', hstart, hrun, hover, hlength, hstart', hrun', hover', htotal,
    hbalanced, hsame hstart' (by decide) hrun' hover' hadmitted⟩

end SlowRequest
