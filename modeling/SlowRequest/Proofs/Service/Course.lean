import SlowRequest.Proofs.Service.Delivery
/-!
# Courses of a service

A course is a run during which others may write to the log at any time. When one producer hands in
its requests one after the other, each admitted before the next, and then closes the service, the
requests sent are those of the producer in their order, whatever the workers do in between.
-/
namespace SlowRequest

variable {g : DiagnosisGraph} {n : Nat} {c d : Custody} {s t u : Service} {st : Service.Step}
  {steps rest : List Service.Step} {requests : List DiagnosisRequest}

namespace Service

/-- From a service to the service after steps. The log may change in between, as nothing depends
on it. -/
inductive Goes : Service → List Step → Service → Prop where
  | done (s : Service) : Goes s [] s
  | log {s u : Service} {steps : List Step} (entries : List LogEntry)
    (h : Goes { s with log := entries } steps u) : Goes s steps u
  | step {s t u : Service} {st : Step} {steps : List Step} (hstep : s.step st = some t)
    (h : Goes t steps u) : Goes s (st :: steps) u

namespace Goes

theorem trans (h : s.Goes steps t) (hrest : t.Goes rest u) : s.Goes (steps ++ rest) u := by
  induction h with
  | done s => exact hrest
  | log entries h ih => exact .log entries (ih hrest)
  | step hstep h ih => exact .step hstep (ih hrest)

theorem single (hstep : s.step st = some t) : s.Goes [st] t := .step hstep (.done t)

theorem said (s : Service) (events : List Log.Event) : s.Goes [] (s.speak events) :=
  .log _ (.done _)

/-- What every step keeps, and what does not look at the log, holds at the end of a course. -/
theorem keeps {P : Custody → Service → Prop}
    (hlog : ∀ c s entries, P c s → P c { s with log := entries })
    (hstep : ∀ c s t st, P c s → s.step st = some t → P (c.after st) t)
    (hgoes : s.Goes steps u) (h : P c s) : P (steps.foldl Custody.after c) u := by
  induction hgoes generalizing c with
  | done s => exact h
  | log entries hgoes ih => exact ih (hlog c _ entries h)
  | step hs hgoes ih => exact ih (hstep c _ _ _ h hs)

theorem isStopped (h : s.Goes steps u) (hstopped : s.isStopped = true ∨ .join ∈ steps) :
    u.isStopped = true := by
  induction h with
  | done s => simpa using hstopped
  | log entries h ih => exact ih hstopped
  | @step s t u st steps hstep h ih =>
    have hkept : s.isStopped = true → t.isStopped = true := by
      intro hs
      cases move_of_step hstep <;> first | exact hs | rfl
    apply ih
    rcases hstopped with hs | hjoin
    · exact .inl (hkept hs)
    · rcases List.mem_cons.mp hjoin with rfl | hjoin
      · left
        cases move_of_step hstep
        rfl
      · exact .inr hjoin

end Goes

theorem Orderly.goes (h : s.Orderly n) (hgoes : s.Goes steps u) : u.Orderly n :=
  hgoes.keeps (P := fun _ s => s.Orderly n) (c := .new n)
    (fun _ _ _ h => ⟨h.pool, h.gone, h.stopped⟩)
    (fun _ _ _ _ h hstep => h.after (move_of_step hstep)) h

theorem Sound.log (h : s.Sound g n c) (entries : List LogEntry) :
    Sound g n c { s with log := entries } where
  tracks := ⟨h.tracks.offered, h.tracks.queue, h.tracks.workers⟩
  whole := h.whole
  faithful := h.faithful
  accounted :=
    ⟨h.accounted.notices, h.accounted.accepted, h.accounted.rejected, h.accounted.diagnosed,
      h.accounted.failed⟩
  orderly := ⟨h.orderly.pool, h.orderly.gone, h.orderly.stopped⟩

theorem Sound.goes (h : Sound g n c s) (hgoes : s.Goes steps u) :
    Sound g n (steps.foldl Custody.after c) u :=
  hgoes.keeps (P := fun c s => Sound g n c s) (fun _ _ entries h => h.log entries)
    (fun _ _ _ _ h hstep => h.after (move_of_step hstep)) h

/-! ## The outer steps -/

/-- Steps of producers and of the owner, apart from attempts in vain. -/
def Step.isOuter : Step → Bool
  | .offer _ | .send _ | .confirm _ | .turnAway _ | .close | .join => true
  | .retry _ | .take _ | .diagnose _ | .tell _ | .leave _ => false

/-- Each request is offered, sent and confirmed before the next one. -/
def admissions (requests : List DiagnosisRequest) : List Step :=
  requests.flatMap fun r => [.offer r, .send 0, .confirm 0]

theorem admissions_append (requests rest : List DiagnosisRequest) :
    admissions (requests ++ rest) = admissions requests ++ admissions rest := by simp [admissions]

/-- One producer gets its requests admitted and then closes the service. -/
def protocol (requests : List DiagnosisRequest) : List Step :=
  admissions requests ++ [.close, .join]

/-- The service comes from its start to an end, and its outer steps are those of one producer. -/
def Serves (requests : List DiagnosisRequest) (first s : Service) : Prop :=
  ∃ steps, first.Goes steps s ∧ steps.filter Step.isOuter = protocol requests

end Service

namespace Custody

open Service (Step)

def front (c : Custody) : Custody :=
  { c with queued := [], held := [], processed := [], completed := [] }

@[simp] theorem underWay_front (c : Custody) : c.front.underWay = c.underWay := rfl

private theorem front_after_of_inner (h : st.isOuter = false) : (c.after st).front = c.front := by
  cases st with
  | retry place => rfl
  | leave i => rfl
  | take i =>
    rw [after]
    split <;> rfl
  | diagnose i =>
    rw [after]
    split <;> rfl
  | tell i =>
    rw [after]
    split <;> rfl
  | _ => cases h

private theorem front_after (h : st.isOuter = true) :
    (c.after st).front = (c.front.after st).front := by
  cases st with
  | offer r => rfl
  | send place =>
    simp only [after, underWay_front]
    split <;> rfl
  | confirm place =>
    simp only [after, underWay_front]
    split <;> rfl
  | turnAway place =>
    simp only [after, underWay_front]
    split <;> rfl
  | close => rfl
  | join => rfl
  | _ => cases h

/-- The front of a custody depends on the outer steps alone. -/
theorem front_foldl_after (h : c.front = d.front) : (steps.foldl after c).front =
    ((steps.filter Step.isOuter).foldl after d).front := by
  induction steps generalizing c d with
  | nil => exact h
  | cons st steps ih =>
    cases hst : st.isOuter with
    | false =>
      rw [List.filter_cons_of_neg (by simp [hst]), List.foldl_cons]
      exact ih ((front_after_of_inner hst).trans h)
    | true =>
      rw [List.filter_cons_of_pos hst, List.foldl_cons, List.foldl_cons]
      apply ih
      rw [front_after hst, h, ← front_after hst]

private theorem foldl_after_admissions (requests : List DiagnosisRequest)
    (hnone : c.underWay = []) :
    ∃ tickets : List Ticket, tickets.map Ticket.request = requests ∧
      ((Service.admissions requests).foldl after c).front =
        { c.front with
          calls := c.calls ++ tickets
          sent := c.sent ++ tickets
          admitted := c.admitted ++ tickets } := by
  induction requests generalizing c with
  | nil => exact ⟨[], rfl, by simp [Service.admissions, front]⟩
  | cons r requests ih =>
    let ticket : Ticket := ⟨c.calls.length, r⟩
    let admitted : Custody :=
      { c with
        calls := c.calls ++ [ticket]
        sent := c.sent ++ [ticket]
        queued := c.queued ++ [ticket]
        admitted := c.admitted ++ [ticket] }
    have hfirst : [Step.offer r, .send 0, .confirm 0].foldl after c = admitted := by
      simp [after, hnone, admitted, ticket]
    obtain ⟨tickets, hrequests, hrest⟩ := ih (c := admitted) hnone
    refine ⟨ticket :: tickets, congrArg (r :: ·) hrequests, ?_⟩
    rw [Service.admissions, List.flatMap_cons, List.foldl_append, hfirst]
    refine hrest.trans ?_
    simp [admitted, front]

theorem of_protocol (h : steps.filter Step.isOuter = Service.protocol requests) :
    let c := Custody.of n steps
    c.underWay = [] ∧ c.refused = [] ∧ c.sent = c.calls ∧ c.admitted = c.calls ∧
      c.calls.map Ticket.request = requests := by
  intro c
  obtain ⟨tickets, hrequests, hfront⟩ := foldl_after_admissions (c := .new n) requests rfl
  have hc : c.front =
      { (Custody.new n).front with calls := tickets, sent := tickets, admitted := tickets } := by
    calc c.front = ((Service.protocol requests).foldl after (.new n)).front := by
          rw [← h]
          exact front_foldl_after rfl
      _ = ((Service.admissions requests).foldl after (.new n)).front := by
          rw [Service.protocol, List.foldl_append]
          rfl
      _ = _ := hfront
  have hcalls : c.calls = tickets := congrArg Custody.calls hc
  refine ⟨congrArg underWay hc, congrArg refused hc, ?_, ?_, ?_⟩
  · exact (congrArg sent hc).trans hcalls.symm
  · exact (congrArg admitted hc).trans hcalls.symm
  · rw [hcalls, hrequests]

end Custody

theorem Service.Sound.isOver (h : Sound g n (.new n) s) (hgoes : s.Goes steps u)
    (hprotocol : steps.filter Step.isOuter = protocol requests) : u.IsOver := by
  have hsound := h.goes hgoes
  obtain ⟨hnone, -⟩ := Custody.of_protocol (n := n) hprotocol
  constructor
  · have hoffered := hsound.tracks.offered
    change (Custody.of n steps).underWay.map Custody.entry = _ at hoffered
    rw [hnone] at hoffered
    exact List.map_eq_nil_iff.mp hoffered.symm
  · have hjoin : Step.join ∈ steps.filter Step.isOuter := by simp [hprotocol, protocol]
    exact hgoes.isStopped (.inr (List.mem_of_mem_filter hjoin))

end SlowRequest
