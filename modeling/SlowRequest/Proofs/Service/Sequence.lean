import SlowRequest.Proofs.Service.Delivery
import SlowRequest.Service.Desk
/-!
# One request after the other

A worker keeps its session from request to request. Each request finds the session as good as new,
counts once, and is told of at most once, whatever became of those before it.
-/
namespace SlowRequest

variable {L : Type} {g : DiagnosisGraph}

/-- How a session ends with a request: it fails when it is activated or called, or its facts are
collected. -/
inductive DiagnosisSession.Ends (s : DiagnosisSession) (next : UInt64) (r : DiagnosisRequest) :
    Outcome → Prop where
  | refused {e : DiagnosisFailure}
    (activation : s.activate (.request r.tree) (baselineOnly r.baseline) = .error e) :
    Ends s next r (.failed e)
  | stopped {active : DiagnosisSession} {e : DiagnosisFailure}
    (activation : s.activate (.request r.tree) (baselineOnly r.baseline) = .ok active)
    (call : active.call.2 = .error e) : Ends s next r (.failed e)
  | unassembled {active : DiagnosisSession} {n : Nat} {e : DiagnosisError}
    (activation : s.activate (.request r.tree) (baselineOnly r.baseline) = .ok active)
    (call : active.call.2 = .ok n)
    (collection : (Occurrence.collect active.call.1.facts next).1 = .error e) :
    Ends s next r (.unassembled e)
  | diagnosed {active : DiagnosisSession} {n : Nat} {occurrences : List Occurrence}
    (activation : s.activate (.request r.tree) (baselineOnly r.baseline) = .ok active)
    (call : active.call.2 = .ok n)
    (collection : (Occurrence.collect active.call.1.facts next).1 = .ok occurrences) :
    Ends s next r (.diagnosed occurrences)

private theorem DiagnosisSession.ends_diagnose (s : DiagnosisSession) (next : UInt64)
    (r : DiagnosisRequest) : s.Ends next r (s.diagnose next r).outcome := by
  rw [diagnose]
  cases hactive : s.activate (.request r.tree) (baselineOnly r.baseline) with
  | error e => exact .refused hactive
  | ok active =>
    dsimp only
    cases hcalled : active.call.2 with
    | error e => exact .stopped hactive hcalled
    | ok n =>
      dsimp only
      cases hcollected : (Occurrence.collect active.call.1.facts next).1 with
      | error e => exact .unassembled hactive hcalled hcollected
      | ok occurrences => exact .diagnosed hactive hcalled hcollected

namespace Desk

/-- What an outcome changes in the counters and for the listener. -/
def Records (receive : L → Notice → L) (before after : Desk L) : Outcome → Prop
  | .diagnosed occurrences =>
    after.metrics = { before.metrics with
      diagnosed := before.metrics.diagnosed + 1
      results := before.metrics.results + UInt64.ofNat occurrences.length } ∧
    after.listener =
      if occurrences = [] then before.listener
      else receive before.listener (.results occurrences)
  | .unassembled _ =>
    after.metrics = { before.metrics with failed := before.metrics.failed + 1 } ∧
    after.listener = before.listener
  | .failed e =>
    after.metrics = { before.metrics with failed := before.metrics.failed + 1 } ∧
    after.listener = receive before.listener (.failure e)

private theorem records_process (receive : L → Notice → L) (d : Desk L) (r : DiagnosisRequest) :
    Records receive d (d.process receive r) (d.session.diagnose d.next r).outcome := by
  rw [process]
  cases (d.session.diagnose d.next r).outcome with
  | unassembled e => exact ⟨rfl, rfl⟩
  | failed e => exact ⟨rfl, rfl⟩
  | diagnosed occurrences =>
    cases occurrences with
    | nil => exact ⟨rfl, rfl⟩
    | cons o os => exact ⟨rfl, rfl⟩

private theorem rested_foldl_process (receive : L → Notice → L) (requests : List DiagnosisRequest)
    {d : Desk L} (h : d.session.Same (Session.new g)) :
    (requests.foldl (process receive) d).session.Same (Session.new g) := by
  induction requests generalizing d with
  | nil => exact h
  | cons r requests ih => exact ih (DiagnosisSession.rested_diagnose h.graph d.next r)

end Desk

/-- A worker that diagnoses what it holds and tells the outcome processes its request. -/
theorem Service.steps_eq_process {s : Service} {i : Nat} {session : DiagnosisSession}
    {r : DiagnosisRequest} (h : s.workers[i]? = some ⟨session, .holding r⟩) :
    ∃ t u session', s.step (.diagnose i) = some t ∧ t.step (.tell i) = some u ∧
      u.workers[i]? = some ⟨session', .idle⟩ ∧
      u.desk session' = (s.desk session).process Audience.hear r := by
  obtain ⟨hlt, -⟩ := List.getElem?_eq_some_iff.mp h
  let d := session.diagnose s.next r
  let t := ({ s with metrics := d.outcome.count s.metrics, next := d.next }.setWorker i d.session
    (.telling r d.outcome)).speakFor r d.journal
  have hdiagnose : s.step (.diagnose i) = some t := by
    rw [step, h]
    rfl
  have hworker : t.workers[i]? = some ⟨d.session, .telling r d.outcome⟩ :=
    List.getElem?_set_self hlt
  have htell : t.step (.tell i) = some ((t.setWorker i d.session .idle).announce r d.outcome) := by
    rw [step, hworker]
    rfl
  refine ⟨t, _, d.session, hdiagnose, htell, ?_, ?_⟩
  · have hlt' : i < t.workers.length := (List.length_set ..).symm ▸ hlt
    exact List.getElem?_set_self hlt'
  · have hlistener : ∀ notice? : Option Notice,
        ((notice?.map fun n => Audience.notify n s.audience).getD (s.audience, [])).1 =
            (notice?.elim (s.audience, s.notices) (Audience.hear (s.audience, s.notices))).1 ∧
          s.notices ++ notice?.toList =
            (notice?.elim (s.audience, s.notices) (Audience.hear (s.audience, s.notices))).2 := by
      intro notice?
      cases notice? with
      | none => exact ⟨rfl, List.append_nil _⟩
      | some n => exact ⟨rfl, rfl⟩
    obtain ⟨haudience, hnotices⟩ := hlistener d.outcome.notice?
    change Desk.mk _ _ (_, _) _ = Desk.mk _ _ _ _
    congr 1
    exact Prod.ext haudience hnotices

/-- After any requests the session of a worker is idle and empty. The next request ends in one of
four ways, and each is recorded once in the counters and at most once with the listener. It ends as
it would with a new session, up to the numbers of its occurrences. -/
theorem Desk.process_sequence (g : DiagnosisGraph) (receive : L → Notice → L) (metrics : Metrics)
    (listener : L) (next : UInt64) (earlier : List DiagnosisRequest) (r : DiagnosisRequest) :
    let before := earlier.foldl (process receive) ⟨Session.new g, metrics, listener, next⟩
    let after := before.process receive r
    (after.session.state = .idle ∧ after.session.facts.facts = #[] ∧
      (∀ tag, after.session.facts.ids tag = []) ∧ after.session.vars = []) ∧
    (∃ outcome, before.session.Ends before.next r outcome ∧ before.Records receive after outcome ∧
      ∀ number, ∃ fresh : Outcome, DiagnosisSession.Ends (Session.new g) number r fresh ∧
        outcome.anonymous = fresh.anonymous) ∧
    ∀ {s : Service} {i : Nat} {session : DiagnosisSession},
      s.workers[i]? = some ⟨session, .holding r⟩ →
      ∃ t u session', s.step (.diagnose i) = some t ∧ t.step (.tell i) = some u ∧
        u.workers[i]? = some ⟨session', .idle⟩ ∧
        u.desk session' = (s.desk session).process Audience.hear r := by
  intro before after
  have hbefore : before.session.Same (Session.new g) :=
    rested_foldl_process receive earlier ⟨rfl, rfl, rfl, rfl⟩
  have hafter : after.session.Same (Session.new g) :=
    DiagnosisSession.rested_diagnose hbefore.graph before.next r
  refine ⟨⟨hafter.state, hafter.facts, hafter.ids, hafter.vars⟩, ?_, Service.steps_eq_process⟩
  refine ⟨_, before.session.ends_diagnose before.next r, records_process receive before r, ?_⟩
  intro number
  exact ⟨_, DiagnosisSession.ends_diagnose (Session.new g) number r,
    DiagnosisSession.anonymous_diagnose hbefore rfl before.next number r⟩

end SlowRequest
