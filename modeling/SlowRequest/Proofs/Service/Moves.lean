import SlowRequest.Service.Run
namespace SlowRequest

theorem forall_mem_set {α : Type} {P : α → Prop} {l : List α} {i : Nat} {x : α}
    (h : ∀ y ∈ l, P y) (hx : P x) : ∀ y ∈ l.set i x, P y := by
  intro y hy
  rcases List.mem_or_eq_of_mem_set hy with hy | rfl
  · exact h y hy
  · exact hx

namespace Service

variable {s t u : Service} {st : Step}

theorem run_cons_eq_some {steps : List Step} (h : s.run (st :: steps) = some u) :
    ∃ t, s.step st = some t ∧ t.run steps = some u := Option.bind_eq_some_iff.mp h

/-- What a step does. The log is left open, as nothing depends on it. -/
inductive Move (s : Service) : Step → Service → Prop where
  | offer (r : DiagnosisRequest) :
    Move s (.offer r)
      { s with offered := s.offered ++ [⟨r, if s.isRunning then .trying 0 else .shutOut⟩] }
  | send {place : Nat} {r : DiagnosisRequest} {n : Nat}
    (hoffer : s.offered[place]? = some ⟨r, .trying n⟩) :
    Move s (.send place)
      { s with offered := s.offered.set place ⟨r, .sent⟩, queue := s.queue ++ [r] }
  | retry {place : Nat} {r : DiagnosisRequest} {n : Nat}
    (hoffer : s.offered[place]? = some ⟨r, .trying n⟩) (log : List LogEntry) :
    Move s (.retry place) { s with offered := s.offered.set place ⟨r, .trying (n + 1)⟩, log }
  | confirm {place : Nat} {r : DiagnosisRequest}
    (hoffer : s.offered[place]? = some ⟨r, .sent⟩) :
    Move s (.confirm place)
      { s with offered := s.offered.eraseIdx place, metrics := s.metrics.accept }
  | turnAway {place : Nat} {r : DiagnosisRequest} {admission : Admission}
    (hoffer : s.offered[place]? = some ⟨r, admission⟩) (hunsent : admission ≠ .sent)
    (log : List LogEntry) :
    Move s (.turnAway place)
      { s with offered := s.offered.eraseIdx place, metrics := s.metrics.reject, log }
  | take {i : Nat} {session : DiagnosisSession} {r : DiagnosisRequest}
    {queue : List DiagnosisRequest} (hworker : s.workers[i]? = some ⟨session, .idle⟩)
    (hqueue : s.queue = r :: queue) :
    Move s (.take i) { s with queue, workers := s.workers.set i ⟨session, .holding r⟩ }
  | diagnose {i : Nat} {session : DiagnosisSession} {r : DiagnosisRequest}
    (hworker : s.workers[i]? = some ⟨session, .holding r⟩) (log : List LogEntry) :
    Move s (.diagnose i)
      { s with
        workers := s.workers.set i
          ⟨(session.diagnose s.next r).session, .telling r (session.diagnose s.next r).outcome⟩
        metrics := (session.diagnose s.next r).outcome.count s.metrics
        next := (session.diagnose s.next r).next
        log }
  | tell {i : Nat} {session : DiagnosisSession} {r : DiagnosisRequest} {outcome : Outcome}
    (hworker : s.workers[i]? = some ⟨session, .telling r outcome⟩) (audience : Audience)
    (log : List LogEntry) :
    Move s (.tell i)
      { s with
        workers := s.workers.set i ⟨session, .idle⟩
        audience
        notices := s.notices ++ outcome.notice?.toList
        log }
  | leave {i : Nat} {session : DiagnosisSession}
    (hworker : s.workers[i]? = some ⟨session, .idle⟩) (hqueue : s.queue = [])
    (hsenders : s.hasSenders = false) :
    Move s (.leave i) { s with workers := s.workers.set i ⟨session, .gone⟩ }
  | close (hrunning : s.isRunning = true) : Move s .close { s with isRunning := false }
  | join (hclosed : s.isRunning = false) (hgone : s.isConnected = false) (log : List LogEntry) :
    Move s .join { s with isStopped := true, log }

section Inversion

variable {place i : Nat} {o : Offer} {w : Worker}

private theorem move_of_sendOffer (hoffer : s.offered[place]? = some o)
    (h : s.sendOffer place o = some t) : s.Move (.send place) t := by
  obtain ⟨r, admission⟩ := o
  cases admission with
  | trying n =>
    rw [sendOffer] at h
    split at h
    · cases h
      exact .send hoffer
    · cases h
  | shutOut => cases h
  | sent => cases h

private theorem move_of_retryOffer (hoffer : s.offered[place]? = some o)
    (h : s.retryOffer place o = some t) : s.Move (.retry place) t := by
  obtain ⟨r, admission⟩ := o
  cases admission with
  | trying n =>
    rw [retryOffer] at h
    split at h
    · cases h
      exact .retry hoffer _
    · cases h
  | shutOut => cases h
  | sent => cases h

private theorem move_of_confirmOffer (hoffer : s.offered[place]? = some o)
    (h : s.confirmOffer place o = some t) : s.Move (.confirm place) t := by
  obtain ⟨r, admission⟩ := o
  cases admission with
  | sent =>
    cases h
    exact .confirm hoffer
  | shutOut => cases h
  | trying n => cases h

private theorem move_of_turnAwayOffer (hoffer : s.offered[place]? = some o)
    (h : s.turnAwayOffer place o = some t) : s.Move (.turnAway place) t := by
  obtain ⟨r, admission⟩ := o
  obtain ⟨said, hsaid, rfl⟩ := Option.map_eq_some_iff.mp h
  refine .turnAway hoffer ?_ _
  rintro rfl
  cases hsaid

private theorem move_of_takeBy (hworker : s.workers[i]? = some w) (h : s.takeBy i w = some t) :
    s.Move (.take i) t := by
  obtain ⟨session, task⟩ := w
  cases task with
  | idle =>
    rw [takeBy] at h
    split at h
    · rename_i hqueue
      cases h
      exact .take hworker hqueue
    · cases h
  | holding r => cases h
  | telling r outcome => cases h
  | gone => cases h

private theorem move_of_diagnoseBy (hworker : s.workers[i]? = some w)
    (h : s.diagnoseBy i w = some t) :
    s.Move (.diagnose i) t := by
  obtain ⟨session, task⟩ := w
  cases task with
  | holding r =>
    cases h
    exact .diagnose hworker _
  | idle => cases h
  | telling r outcome => cases h
  | gone => cases h

private theorem move_of_tellBy (hworker : s.workers[i]? = some w) (h : s.tellBy i w = some t) :
    s.Move (.tell i) t := by
  obtain ⟨session, task⟩ := w
  cases task with
  | telling r outcome =>
    cases h
    exact .tell hworker _ _
  | idle => cases h
  | holding r => cases h
  | gone => cases h

private theorem move_of_leaveBy (hworker : s.workers[i]? = some w) (h : s.leaveBy i w = some t) :
    s.Move (.leave i) t := by
  obtain ⟨session, task⟩ := w
  cases task with
  | idle =>
    rw [leaveBy] at h
    split at h
    · rename_i hover
      simp only [Bool.and_eq_true, List.isEmpty_iff, Bool.not_eq_true'] at hover
      cases h
      exact .leave hworker hover.1 hover.2
    · cases h
  | holding r => cases h
  | telling r outcome => cases h
  | gone => cases h

end Inversion

theorem move_of_step (h : s.step st = some t) : s.Move st t := by
  cases st with
  | offer r =>
    cases h
    exact .offer r
  | send place =>
    obtain ⟨o, hoffer, h⟩ := Option.bind_eq_some_iff.mp h
    exact move_of_sendOffer hoffer h
  | retry place =>
    obtain ⟨o, hoffer, h⟩ := Option.bind_eq_some_iff.mp h
    exact move_of_retryOffer hoffer h
  | confirm place =>
    obtain ⟨o, hoffer, h⟩ := Option.bind_eq_some_iff.mp h
    exact move_of_confirmOffer hoffer h
  | turnAway place =>
    obtain ⟨o, hoffer, h⟩ := Option.bind_eq_some_iff.mp h
    exact move_of_turnAwayOffer hoffer h
  | take i =>
    obtain ⟨w, hworker, h⟩ := Option.bind_eq_some_iff.mp h
    exact move_of_takeBy hworker h
  | diagnose i =>
    obtain ⟨w, hworker, h⟩ := Option.bind_eq_some_iff.mp h
    exact move_of_diagnoseBy hworker h
  | tell i =>
    obtain ⟨w, hworker, h⟩ := Option.bind_eq_some_iff.mp h
    exact move_of_tellBy hworker h
  | leave i =>
    obtain ⟨w, hworker, h⟩ := Option.bind_eq_some_iff.mp h
    exact move_of_leaveBy hworker h
  | close =>
    rw [step] at h
    split at h
    · rename_i hrunning
      cases h
      exact .close hrunning
    · cases h
  | join =>
    rw [step] at h
    split at h
    · cases h
    · rename_i hover
      simp only [Bool.or_eq_true, not_or, Bool.not_eq_true] at hover
      cases h
      exact .join hover.1.1 hover.2 _

end Service
end SlowRequest
