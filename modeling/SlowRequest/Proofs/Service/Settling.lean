import SlowRequest.Proofs.Service.Course
/-!
# Letting workers move

Each move of a worker brings the service one step closer to the state where no worker can move, and
a settled service is in that state. A service at rest admits a request at once, is at rest again
when it has settled, and ends when it is shut down.
-/
namespace SlowRequest

private theorem tally_set {l : List Nat} {i m k : Nat} (h : l[i]? = some m) :
    tally (l.set i k) + m = tally l + k := by
  induction l generalizing i with
  | nil => simp at h
  | cons n ns ih =>
    cases i with
    | zero =>
      rw [List.getElem?_cons_zero, Option.some.injEq] at h
      simp only [List.set_cons_zero, tally]
      omega
    | succ i =>
      have hrest := ih h
      simp only [List.set_cons_succ, tally]
      omega

namespace Service

variable {n i : Nat} {holdsBack : Outcome → Bool} {s t u : Service} {st : Step} {w : Worker}
  {r : DiagnosisRequest} {steps : List Step}

def Step.isWorkers : Step → Bool
  | .take _ | .diagnose _ | .tell _ | .leave _ => true
  | .offer _ | .send _ | .retry _ | .confirm _ | .turnAway _ | .close | .join => false

private theorem Step.not_isOuter (h : st.isWorkers = true) : st.isOuter = false := by
  cases st <;> simp_all [Step.isWorkers, Step.isOuter]

private theorem tally_stepsLeft_set (session : DiagnosisSession) (task : Task)
    (hw : s.workers[i]? = some w) :
    tally ((s.workers.set i ⟨session, task⟩).map fun w => Task.stepsLeft w.task)
        + Task.stepsLeft w.task =
      tally (s.workers.map fun w => Task.stepsLeft w.task) + Task.stepsLeft task := by
  have hread : (s.workers.map fun w => Task.stepsLeft w.task)[i]? =
      some (Task.stepsLeft w.task) := by rw [List.getElem?_map, hw, Option.map_some]
  rw [List.map_set]
  exact tally_set hread

/-- A move of a worker leaves one step less to go. -/
theorem stepsLeft_after (hm : s.Move st u) (hst : st.isWorkers = true) :
    u.stepsLeft + 1 = s.stepsLeft := by
  cases hm with
  | @take i session r queue hworker hqueue =>
    have hset := tally_stepsLeft_set session (.holding r) hworker
    simp only [stepsLeft, Task.stepsLeft, hqueue, List.length_cons] at hset ⊢
    omega
  | @diagnose i session r hworker log =>
    have hset := tally_stepsLeft_set (session.diagnose s.next r).session
      (.telling r (session.diagnose s.next r).outcome) hworker
    simp only [stepsLeft, Task.stepsLeft] at hset ⊢
    omega
  | @tell i session r outcome hworker audience log =>
    have hset := tally_stepsLeft_set session .idle hworker
    simp only [stepsLeft, Task.stepsLeft] at hset ⊢
    omega
  | @leave i session hworker hqueue hsenders =>
    have hset := tally_stepsLeft_set session .gone hworker
    simp only [stepsLeft, Task.stepsLeft] at hset ⊢
    omega
  | _ => cases hst

private theorem step_workerStep? (h : s.workerStep? holdsBack i = some st) :
    st.isWorkers = true ∧ ∃ t, s.step st = some t := by
  rw [workerStep?] at h
  cases hw : s.workers[i]? with
  | none => simp [hw] at h
  | some w =>
    obtain ⟨session, task⟩ := w
    rw [hw] at h
    cases task with
    | idle =>
      dsimp only at h
      cases hqueue : s.queue with
      | cons r queue =>
        simp only [hqueue, List.isEmpty_cons, Bool.not_false, if_true] at h
        cases h
        refine ⟨rfl, ?_⟩
        rw [step, hw, Option.bind_some, takeBy, hqueue]
        exact ⟨_, rfl⟩
      | nil =>
        cases hsenders : s.hasSenders with
        | true => simp [hqueue, hsenders] at h
        | false =>
          simp only [hqueue, hsenders, List.isEmpty_nil, Bool.not_true, Bool.false_eq_true,
            if_false] at h
          cases h
          refine ⟨rfl, ?_⟩
          rw [step, hw, Option.bind_some, leaveBy, hqueue, hsenders]
          exact ⟨_, rfl⟩
    | holding r =>
      cases h
      refine ⟨rfl, ?_⟩
      rw [step, hw]
      exact ⟨_, rfl⟩
    | telling r outcome =>
      dsimp only at h
      split at h
      · cases h
      · cases h
        refine ⟨rfl, ?_⟩
        rw [step, hw]
        exact ⟨_, rfl⟩
    | gone => cases h

private theorem step_nextStep? (h : s.nextStep? holdsBack = some st) :
    st.isWorkers = true ∧ ∃ t, s.step st = some t := by
  obtain ⟨i, -, hi⟩ := List.exists_of_findSome?_eq_some h
  exact step_workerStep? hi

/-- Settled by moves of the workers, which leave the offers alone. -/
structure Settles (s u : Service) : Prop where
  goes : ∃ steps, s.Goes steps u ∧ steps.filter Step.isOuter = []
  settings : u.settings = s.settings
  isRunning : u.isRunning = s.isRunning
  isStopped : u.isStopped = s.isStopped
  offered : u.offered = s.offered

theorem Settles.refl (s : Service) : s.Settles s := ⟨⟨[], .done s, rfl⟩, rfl, rfl, rfl, rfl⟩

theorem Settles.step (hst : st.isWorkers = true) (hstep : s.step st = some t)
    (h : t.Settles u) : s.Settles u := by
  obtain ⟨steps, hgoes, houter⟩ := h.goes
  have hfilter : (st :: steps).filter Step.isOuter = [] := by
    rw [List.filter_cons_of_neg (by simp [Step.not_isOuter hst]), houter]
  have hkept : t.settings = s.settings ∧ t.isRunning = s.isRunning ∧
      t.isStopped = s.isStopped ∧ t.offered = s.offered := by
    cases move_of_step hstep <;> first | exact ⟨rfl, rfl, rfl, rfl⟩ | cases hst
  obtain ⟨hsettings, hrunning, hstopped, hoffered⟩ := hkept
  exact ⟨⟨_, .step hstep hgoes, hfilter⟩, h.settings.trans hsettings, h.isRunning.trans hrunning,
    h.isStopped.trans hstopped, h.offered.trans hoffered⟩

private theorem settles_advance (holdsBack : Outcome → Bool) (fuel : Nat) (s : Service) :
    s.Settles (s.advance holdsBack fuel) := by
  induction fuel generalizing s with
  | zero => exact .refl s
  | succ fuel ih =>
    rw [advance]
    cases hnext : s.nextStep? holdsBack with
    | none => exact .refl s
    | some st =>
      obtain ⟨hst, t, hstep⟩ := step_nextStep? hnext
      rw [Option.bind_some, hstep]
      exact .step hst hstep (ih t)

private theorem nextStep?_advance {fuel : Nat} (h : s.stepsLeft ≤ fuel) :
    (s.advance holdsBack fuel).nextStep? holdsBack = none := by
  induction fuel generalizing s with
  | zero =>
    rw [advance]
    cases hnext : s.nextStep? holdsBack with
    | none => rfl
    | some st =>
      obtain ⟨hst, t, hstep⟩ := step_nextStep? hnext
      have hless := stepsLeft_after (move_of_step hstep) hst
      omega
  | succ fuel ih =>
    rw [advance]
    cases hnext : s.nextStep? holdsBack with
    | none => exact hnext
    | some st =>
      obtain ⟨hst, t, hstep⟩ := step_nextStep? hnext
      have hless := stepsLeft_after (move_of_step hstep) hst
      rw [Option.bind_some, hstep]
      exact ih (by omega)

private theorem settles_settle (holdsBack : Outcome → Bool) (s : Service) :
    s.Settles (s.settle holdsBack) := settles_advance _ _ _

/-- When no worker can move and no outcome is held back, the workers have ended or wait for
requests. -/
theorem of_nextStep?_eq_none (h : s.nextStep? (fun _ => false) = none)
    (hw : s.workers[i]? = some w) :
    w.task = .gone ∨ w.task = .idle ∧ s.queue = [] ∧ s.hasSenders = true := by
  obtain ⟨hlt, -⟩ := List.getElem?_eq_some_iff.mp hw
  have hnone := List.findSome?_eq_none_iff.mp h i (List.mem_range.mpr hlt)
  rw [workerStep?, hw] at hnone
  obtain ⟨session, task⟩ := w
  cases task with
  | gone => exact .inl rfl
  | idle =>
    right
    cases hqueue : s.queue with
    | cons r queue => simp [hqueue] at hnone
    | nil =>
      cases hsenders : s.hasSenders with
      | true => exact ⟨rfl, rfl, rfl⟩
      | false => simp [hqueue, hsenders] at hnone
  | holding r => simp at hnone
  | telling r outcome => simp at hnone

theorem isConnected_settle (hrunning : s.isRunning = false) (hoffered : s.offered = []) :
    (s.settle fun _ => false).isConnected = false := by
  have hsettles := settles_settle (fun _ => false) s
  have hsenders : (s.settle fun _ => false).hasSenders = false := by
    rw [hasSenders, hsettles.offered, hoffered, hsettles.isRunning, hrunning]
    rfl
  apply isConnected_eq_false_iff.mpr
  intro w hw
  obtain ⟨i, hi⟩ := List.getElem?_of_mem hw
  have hstuck : (s.settle fun _ => false).nextStep? (fun _ => false) = none :=
    nextStep?_advance le_rfl
  rcases of_nextStep?_eq_none hstuck hi with hgone | ⟨-, -, hmore⟩
  · exact hgone
  · rw [hsenders] at hmore
    cases hmore

theorem isConnected_dismiss (hoffered : s.offered = []) : s.dismiss.isConnected = false := by
  rw [dismiss, step]
  cases hrunning : s.isRunning with
  | true => exact isConnected_settle rfl hoffered
  | false => exact isConnected_settle hrunning hoffered

/-- When a worker is refused, those started before it have left. -/
theorem isConnected_of_hire {m : Machine} {session : DiagnosisSession} {reason : String}
    (h : s.hire m session n = .error (u, reason)) (hoffered : s.offered = []) :
    u.isConnected = false := by
  induction n generalizing s with
  | zero => cases h
  | succ n ih =>
    rw [hire] at h
    cases hfirst : m.refusal? s.workers.length with
    | some reason' =>
      rw [hfirst] at h
      cases h
      exact isConnected_dismiss hoffered
    | none =>
      rw [hfirst] at h
      exact ih h hoffered

/-! ## A service at rest -/

/-- An open service without offers and requests that has room for some. -/
structure Resting (n : Nat) (s : Service) : Prop where
  orderly : s.Orderly n
  workers : 0 < n
  isRunning : s.isRunning = true
  offered : s.offered = []
  queue : s.queue = []
  capacity : 0 < s.settings.queueCapacity
  attempts : 0 < s.attempts

namespace Resting

theorem ofGraph {settings : ServiceSettings} (graph : DiagnosisGraph) (audience : Audience)
    (hworkers : 0 < settings.workers) (hcapacity : 0 < settings.queueCapacity)
    (hattempts : 0 < settings.enqueueAttempts.toNat) :
    (Service.ofGraph settings graph audience).Resting settings.workers :=
  ⟨.ofGraph settings graph audience, hworkers, rfl, rfl, rfl, hcapacity, hattempts⟩

theorem log (h : s.Resting n) (entries : List LogEntry) :
    ({ s with log := entries } : Service).Resting n :=
  ⟨⟨h.orderly.pool, h.orderly.gone, h.orderly.stopped⟩, h.workers, h.isRunning, h.offered, h.queue,
    h.capacity, h.attempts⟩

theorem isConnected (h : s.Resting n) : s.isConnected = true := by
  have hsenders : s.hasSenders = true := by rw [hasSenders, h.isRunning, Bool.true_or]
  obtain ⟨w, hw⟩ := List.exists_mem_of_length_pos (h.orderly.pool.symm ▸ h.workers)
  by_contra hgone
  have hall := isConnected_eq_false_iff.mp (Bool.eq_false_of_not_eq_true hgone)
  exact h.orderly.not_gone hsenders w hw (hall w hw)

theorem submit (h : s.Resting n) (r : DiagnosisRequest) :
    ∃ u, s.submit r = (u, true) ∧ s.Goes [.offer r, .send 0, .confirm 0] u ∧
      u.settings = s.settings ∧ u.isRunning = true ∧ u.offered = [] := by
  let offered : Service := { s with offered := [⟨r, .trying 0⟩] }
  let sent : Service := { s with offered := [⟨r, .sent⟩], queue := s.queue ++ [r] }
  let confirmed : Service :=
    { s with offered := [], queue := s.queue ++ [r], metrics := s.metrics.accept }
  have hoffer : s.step (.offer r) = some offered := by
    simp [step, offered, h.offered, h.isRunning]
  have hroom : offered.hasRoom = true := by
    have hconnected : offered.isConnected = true := h.isConnected
    have hqueue : offered.queue.length < offered.settings.queueCapacity := by
      simpa [offered, h.queue] using h.capacity
    rw [hasRoom, hconnected, decide_eq_true hqueue]
    rfl
  have hsend : offered.step (.send 0) = some sent := by
    have hattempts : 0 < offered.attempts := h.attempts
    change (if 0 < offered.attempts && offered.hasRoom then _ else none) = _
    rw [decide_eq_true hattempts, hroom]
    rfl
  have hconfirm : sent.step (.confirm 0) = some confirmed := rfl
  refine ⟨confirmed, ?_, .step hoffer (.step hsend (.single hconfirm)), rfl, h.isRunning, rfl⟩
  rw [Service.submit, hoffer, h.offered]
  dsimp only [List.length_nil, Option.getD_some]
  rw [hsend]
  rfl

private theorem of_settle (h : s.Orderly n) (hn : 0 < n) (hrunning : s.isRunning = true)
    (hoffered : s.offered = []) (hcapacity : 0 < s.settings.queueCapacity)
    (hattempts : 0 < s.attempts) : (s.settle fun _ => false).Resting n := by
  have hsettles := settles_settle (fun _ => false) s
  obtain ⟨steps, hgoes, -⟩ := hsettles.goes
  have horderly := h.goes hgoes
  have hrunning' := hsettles.isRunning.trans hrunning
  have hsenders : (s.settle fun _ => false).hasSenders = true := by
    rw [hasSenders, hrunning', Bool.true_or]
  obtain ⟨w, hw⟩ : ∃ w, (s.settle fun _ => false).workers[0]? = some w :=
    ⟨_, List.getElem?_eq_getElem (horderly.pool.symm ▸ hn)⟩
  refine ⟨horderly, hn, hrunning', hsettles.offered.trans hoffered, ?_, ?_, ?_⟩
  · rcases of_nextStep?_eq_none (nextStep?_advance le_rfl) hw with hgone | ⟨-, hqueue, -⟩
    · exact absurd hgone (horderly.not_gone hsenders w (List.mem_of_getElem? hw))
    · exact hqueue
  · rw [hsettles.settings]
    exact hcapacity
  · rw [Service.attempts, hsettles.settings]
    exact hattempts

theorem process_settle (h : s.Resting n) (hslow : r.isSlow = true) :
    ∃ u, s.process r = (u, true) ∧ (u.settle fun _ => false).Resting n ∧
      ∃ steps, s.Goes steps (u.settle fun _ => false) ∧
        steps.filter Step.isOuter = [.offer r, .send 0, .confirm 0] := by
  obtain ⟨u, hsubmit, hgoes, hsettings, hrunning, hoffered⟩ := h.submit r
  obtain ⟨steps, hsettle, houter⟩ := (settles_settle (fun _ => false) u).goes
  refine ⟨u, ?_, ?_, _, hgoes.trans hsettle, ?_⟩
  · rw [process, if_pos hslow, hsubmit]
  · apply of_settle (h.orderly.goes hgoes) h.workers hrunning hoffered
    · rw [hsettings]
      exact h.capacity
    · rw [Service.attempts, hsettings]
      exact h.attempts
  · rw [List.filter_append, houter]
    rfl

theorem shutdown (h : s.Resting n) :
    ∃ steps, s.Goes steps s.shutdown ∧ steps.filter Step.isOuter = [.close, .join] := by
  let closed : Service := { s with isRunning := false }
  have hclose : s.step .close = some closed := by rw [step, if_pos h.isRunning]
  obtain ⟨last, hlast⟩ : ∃ last, last = closed.settle fun _ => false := ⟨_, rfl⟩
  have hsettles : closed.Settles last := hlast ▸ settles_settle _ closed
  obtain ⟨steps, hgoes, houter⟩ := hsettles.goes
  have hclosed : last.isRunning = false := hsettles.isRunning
  have hconnected : last.isConnected = false := hlast ▸ isConnected_settle rfl h.offered
  have hstopped : last.isStopped = false := by
    rw [hsettles.isStopped]
    by_contra hs
    have hgone := h.orderly.stopped (Bool.eq_true_of_not_eq_false hs)
    rw [h.isConnected] at hgone
    cases hgone
  have hjoin : last.step .join = some s.shutdown := by
    rw [Service.shutdown, hclose]
    dsimp only
    rw [← hlast, step, hclosed, hstopped, hconnected]
    rfl
  refine ⟨_, .step hclose (hgoes.trans (.single hjoin)), ?_⟩
  rw [List.filter_cons_of_pos rfl, List.filter_append, houter]
  rfl

end Resting
end Service
end SlowRequest
