import SlowRequest.Proofs.Results.Hearing
import SlowRequest.Proofs.Service.Course
import SlowRequest.Proofs.Service.Findings
/-!
# What a service gathers

The listeners of a service know what the notices told them and nothing else, and the occurrences
counted are those found in the processed requests. A single worker takes the requests in the order
in which they were sent, and numbers all it finds in that order.
-/
namespace SlowRequest

namespace Audience

theorem told_keepers (names : NameTable) (s : OccurrenceStore) (x : RootIndex)
    (notices : List Notice) :
    told [.printer names, .store s, .index x] notices =
      [.printer names,
        .store ((notices.flatMap Notice.occurrences).foldl OccurrenceStore.insert s),
        .index ((notices.flatMap Notice.occurrences).foldl RootIndex.insert x)] := by
  rw [told_eq_map, List.map_cons, List.map_cons, List.map_singleton, Listener.foldl_hear_printer,
    Listener.foldl_hear_store, Listener.foldl_hear_index]

end Audience

variable {g : DiagnosisGraph} {th : Thresholds} {n : Nat} {c : Custody} {s t u : Service}
  {st : Service.Step} {first : Audience}

private theorem Service.told_of_step (h : s.step st = some t) :
    ∃ notices, t.notices = s.notices ++ notices ∧ t.audience = s.audience.told notices := by
  cases st with
  | tell i =>
    obtain ⟨⟨session, task⟩, -, htell⟩ := Option.bind_eq_some_iff.mp h
    cases task with
    | telling r outcome =>
      cases htell
      refine ⟨outcome.notice?.toList, rfl, ?_⟩
      rw [announce]
      cases outcome.notice? <;> rfl
    | idle => cases htell
    | holding r => cases htell
    | gone => cases htell
  | _ =>
    cases move_of_step h
    exact ⟨[], (List.append_nil _).symm, rfl⟩

namespace Custody

def findingsOf (g : DiagnosisGraph) (tickets : List Ticket) : List Occurrence :=
  (tickets.map Ticket.request).flatMap (DiagnosisRequest.findings g)

private theorem findingsOf_concat (g : DiagnosisGraph) (tickets : List Ticket) (t : Ticket) :
    findingsOf g (tickets ++ [t]) = findingsOf g tickets ++ t.request.findings g := by
  simp [findingsOf]

structure Gathered (g : DiagnosisGraph) (first : Audience) (c : Custody) (s : Service) :
    Prop where
  audience : s.audience = first.told s.notices
  results : s.metrics.results = UInt64.ofNat (findingsOf g c.processed).length

private theorem processed_after (h : ∀ i, st ≠ .diagnose i) :
    (c.after st).processed = c.processed := by
  cases st with
  | diagnose i => exact absurd rfl (h i)
  | _ =>
    rw [after]
    try split
    all_goals rfl

private theorem results_after
    (h : s.metrics.results = UInt64.ofNat (findingsOf g c.processed).length)
    (hw : ∀ w ∈ s.workers, w.Faithful g) (ht : c.Tracks s) (hm : s.Move st u) :
    u.metrics.results = UInt64.ofNat (findingsOf g (c.after st).processed).length := by
  cases hm with
  | @diagnose i session r hworker log =>
    obtain ⟨t, hx, rfl⟩ := ht.held_at hworker rfl
    have hrested := (hw _ (List.mem_of_getElem? hworker)).rested
    have hlength : (session.diagnose s.next t.request).outcome.occurrences.length =
        (t.request.findings g).length := by
      rw [← DiagnosisSession.map_anonymous_occurrences hrested s.next, List.length_map]
    simp only [Custody.after, hx]
    rw [Outcome.results_count, hlength, h, findingsOf_concat, List.length_append, UInt64.ofNat_add]
  | _ =>
    rw [processed_after (by simp)]
    exact h

theorem Gathered.goes {steps : List Service.Step} (h : c.Gathered g first s)
    (hsound : s.Sound g n c) (hgoes : s.Goes steps u) :
    (steps.foldl Custody.after c).Gathered g first u := by
  refine (hgoes.keeps (P := fun c s => s.Sound g n c ∧ c.Gathered g first s) ?_ ?_ ⟨hsound, h⟩).2
  · intro c s entries ⟨hs, hg⟩
    exact ⟨hs.log entries, hg.audience, hg.results⟩
  · intro c s t st ⟨hs, hg⟩ hstep
    have hmove := Service.move_of_step hstep
    refine ⟨hs.after hmove, ?_, results_after hg.results hs.faithful hs.tracks hmove⟩
    obtain ⟨notices, hnotices, haudience⟩ := Service.told_of_step hstep
    rw [haudience, hnotices, Audience.told_append, hg.audience]

end Custody

/-! ## A single worker -/

def Task.untold : Task → List Occurrence
  | telling _ outcome => outcome.occurrences
  | _ => []

namespace Custody

/-- The tickets of a single worker: completed ones, the one in hand and queued ones make up the
sent ones in their order, and what it found has consecutive numbers in that order. -/
structure InLine (g : DiagnosisGraph) (c : Custody) (s : Service) : Prop where
  single : s.workers.length = 1
  sent : c.sent = c.completed ++ c.held.flatMap (fun x => (x.map Prod.fst).toList) ++ c.queued
  processed : c.processed = c.completed ++ c.held.filterMap markedIn?
  found : s.delivered ++ s.workers.flatMap (fun w => w.task.untold) =
    Occurrence.numbered 1 (findingsOf g c.processed)
  next : s.next = 1 + UInt64.ofNat (findingsOf g c.processed).length

private theorem eq_singleton_of_getElem? {α : Type} {l : List α} {i : Nat} {x : α}
    (hl : l.length = 1) (h : l[i]? = some x) : i = 0 ∧ l = [x] := by
  obtain ⟨y, rfl⟩ := List.length_eq_one_iff.mp hl
  obtain ⟨hlt, rfl⟩ := List.getElem?_eq_some_iff.mp h
  have hi : i = 0 := by simpa using hlt
  subst hi
  exact ⟨rfl, rfl⟩

private theorem Tracks.length_held (h : c.Tracks s) : c.held.length = s.workers.length := by
  simpa using congrArg List.length h.workers

namespace InLine

variable {i : Nat} {w : Worker}

private theorem eq_single (h : c.InLine g s) (hw : s.workers[i]? = some w) :
    i = 0 ∧ s.workers = [w] :=
  eq_singleton_of_getElem? h.single hw

private theorem held_eq {x : Option (Ticket × Bool)} (h : c.InLine g s) (ht : c.Tracks s)
    (hx : c.held[i]? = some x) : c.held = [x] :=
  (eq_singleton_of_getElem? (ht.length_held.trans h.single) hx).2

theorem take {session : DiagnosisSession} {t : Ticket} {queued : List Ticket}
    {queue : List DiagnosisRequest} (h : c.InLine g s) (ht : c.Tracks s)
    (hworker : s.workers[i]? = some ⟨session, .idle⟩) (hqueued : c.queued = t :: queued) :
    (c.after (.take i)).InLine g
      { s with queue, workers := s.workers.set i ⟨session, .holding t.request⟩ } := by
  have hheld := h.held_eq ht (ht.free_at hworker rfl)
  obtain ⟨rfl, hworkers⟩ := h.eq_single hworker
  have hsent := h.sent
  have hprocessed := h.processed
  have hfound := h.found
  simp only [after, hqueued]
  rw [hheld, hqueued] at hsent
  rw [hheld] at hprocessed
  rw [hworkers] at hfound
  refine ⟨by rw [hworkers]; rfl, ?_, ?_, ?_, h.next⟩
  · rw [hheld, hsent]
    simp
  · rw [hheld]
    exact hprocessed
  · rw [hworkers]
    exact hfound

theorem diagnose [NaNSums] {session : DiagnosisSession} {t : Ticket} {log : List LogEntry}
    (hg : diagnosisGraph th = .ok g) (h : c.InLine g s) (ht : c.Tracks s)
    (hrested : session.Same (Session.new g))
    (hworker : s.workers[i]? = some ⟨session, .holding t.request⟩)
    (hx : c.held[i]? = some (some (t, false))) :
    (c.after (.diagnose i)).InLine g
      { s with
        workers := s.workers.set i
          ⟨(session.diagnose s.next t.request).session,
            .telling t.request (session.diagnose s.next t.request).outcome⟩
        metrics := (session.diagnose s.next t.request).outcome.count s.metrics
        next := (session.diagnose s.next t.request).next
        log } := by
  obtain ⟨hoccurrences, hnext⟩ := DiagnosisSession.diagnose_findings hg hrested s.next t.request
  have hheld := h.held_eq ht hx
  obtain ⟨rfl, hworkers⟩ := h.eq_single hworker
  have hsent := h.sent
  have hprocessed := h.processed
  have hfound := h.found
  simp only [after, hx]
  rw [hheld] at hsent hprocessed
  rw [hworkers] at hfound
  refine ⟨by rw [hworkers]; rfl, ?_, ?_, ?_, ?_⟩
  · rw [hheld]
    exact hsent
  · rw [hprocessed, hheld]
    simp [markedIn?, marked?]
  · rw [findingsOf_concat, Occurrence.numbered_append, ← h.next, ← hoccurrences, ← hfound, hworkers]
    simp [Task.untold, Service.delivered]
  · rw [hnext, h.next, findingsOf_concat, List.length_append, UInt64.ofNat_add, UInt64.add_assoc]

theorem tell {session : DiagnosisSession} {t : Ticket} {r : DiagnosisRequest} {outcome : Outcome}
    {audience : Audience} {log : List LogEntry} (h : c.InLine g s) (ht : c.Tracks s)
    (hworker : s.workers[i]? = some ⟨session, .telling r outcome⟩)
    (hx : c.held[i]? = some (some (t, true))) :
    (c.after (.tell i)).InLine g
      { s with
        workers := s.workers.set i ⟨session, .idle⟩
        audience
        notices := s.notices ++ outcome.notice?.toList
        log } := by
  have hheld := h.held_eq ht hx
  obtain ⟨rfl, hworkers⟩ := h.eq_single hworker
  have hsent := h.sent
  have hprocessed := h.processed
  have hfound := h.found
  simp only [after, hx]
  rw [hheld] at hsent hprocessed
  rw [hworkers] at hfound
  refine ⟨by rw [hworkers]; rfl, ?_, ?_, ?_, h.next⟩
  · rw [hheld, hsent]
    simp
  · rw [hprocessed, hheld]
    simp [markedIn?, marked?]
  · rw [← hfound, hworkers, Service.delivered, Service.delivered, List.flatMap_append,
      Outcome.flatMap_notice?]
    simp [Task.untold]

theorem after [NaNSums] (hg : diagnosisGraph th = .ok g) (h : c.InLine g s)
    (hw : ∀ w ∈ s.workers, w.Faithful g) (ht : c.Tracks s) (hm : s.Move st u) :
    (c.after st).InLine g u := by
  cases hm with
  | offer r => exact ⟨h.single, h.sent, h.processed, h.found, h.next⟩
  | send hoffer =>
    obtain ⟨t, hx, -⟩ := ht.offer_at hoffer
    simp only [Custody.after, hx]
    refine ⟨h.single, ?_, h.processed, h.found, h.next⟩
    rw [h.sent, List.append_assoc _ c.queued]
  | retry hoffer log => exact ⟨h.single, h.sent, h.processed, h.found, h.next⟩
  | confirm hoffer =>
    obtain ⟨t, hx, -⟩ := ht.offer_at hoffer
    simp only [Custody.after, hx]
    exact ⟨h.single, h.sent, h.processed, h.found, h.next⟩
  | turnAway hoffer hunsent log =>
    obtain ⟨t, hx, -⟩ := ht.offer_at hoffer
    simp only [Custody.after, hx]
    exact ⟨h.single, h.sent, h.processed, h.found, h.next⟩
  | take hworker hqueue =>
    obtain ⟨t, queued, hq, rfl, -⟩ := ht.next_queued hqueue
    exact h.take ht hworker hq
  | diagnose hworker log =>
    obtain ⟨t, hx, rfl⟩ := ht.held_at hworker rfl
    exact h.diagnose hg ht (hw _ (List.mem_of_getElem? hworker)).rested hworker hx
  | tell hworker audience log =>
    obtain ⟨t, hx, -⟩ := ht.held_at hworker rfl
    exact h.tell ht hworker hx
  | leave hworker hqueue hsenders =>
    obtain ⟨rfl, hworkers⟩ := h.eq_single hworker
    have hfound := h.found
    rw [hworkers] at hfound
    refine ⟨by rw [hworkers]; rfl, h.sent, h.processed, ?_, h.next⟩
    rw [hworkers]
    exact hfound
  | close hrunning => exact ⟨h.single, h.sent, h.processed, h.found, h.next⟩
  | join hclosed hgone log => exact ⟨h.single, h.sent, h.processed, h.found, h.next⟩

theorem goes [NaNSums] {steps : List Service.Step} (hg : diagnosisGraph th = .ok g)
    (h : c.InLine g s) (hsound : s.Sound g n c) (hgoes : s.Goes steps u) :
    (steps.foldl Custody.after c).InLine g u := by
  refine (hgoes.keeps (P := fun c s => s.Sound g n c ∧ c.InLine g s) ?_ ?_ ⟨hsound, h⟩).2
  · intro c s entries ⟨hs, hl⟩
    exact ⟨hs.log entries, hl.single, hl.sent, hl.processed, hl.found, hl.next⟩
  · intro c s t st ⟨hs, hl⟩ hstep
    have hmove := Service.move_of_step hstep
    exact ⟨hs.after hmove, hl.after hg hs.faithful hs.tracks hmove⟩

end InLine
end Custody
end SlowRequest
