import SlowRequest.Proofs.Service.Custody
namespace SlowRequest.Service

variable {s u : Service} {st : Step} {n i place : Nat}

/-- Nothing can be sent any more if and only if the service is closed and every offer came after
that. -/
theorem hasSenders_eq_false_iff : s.hasSenders = false ↔
    s.isRunning = false ∧ ∀ o ∈ s.offered, o.admission = .shutOut := by
  rw [hasSenders, Bool.or_eq_false_iff, List.any_eq_false]
  simp

theorem isConnected_eq_false_iff : s.isConnected = false ↔ ∀ w ∈ s.workers, w.task = .gone := by
  rw [isConnected, List.any_eq_false]
  constructor
  · intro h w hw
    have hgone := h w hw
    cases htask : w.task with
    | gone => rfl
    | idle => simp [htask, Task.isGone] at hgone
    | holding r => simp [htask, Task.isGone] at hgone
    | telling r o => simp [htask, Task.isGone] at hgone
  · intro h w hw
    rw [h w hw]
    simp [Task.isGone]

/-- How a pool of `n` workers comes to its end. -/
structure Orderly (n : Nat) (s : Service) : Prop where
  pool : s.workers.length = n
  gone : ∀ w ∈ s.workers, w.task = .gone → s.queue = [] ∧ s.hasSenders = false
  stopped : s.isStopped = true → s.isConnected = false

namespace Orderly

theorem ofGraph (settings : ServiceSettings) (graph : DiagnosisGraph) (audience : Audience) :
    Orderly settings.workers (.ofGraph settings graph audience) := by
  refine ⟨List.length_replicate, ?_, fun hstopped => absurd hstopped Bool.false_ne_true⟩
  intro w hw hgone
  rw [List.eq_of_mem_replicate hw] at hgone
  cases hgone

theorem not_gone (h : Orderly n s) (hsenders : s.hasSenders = true) :
    ∀ w ∈ s.workers, w.task ≠ .gone := by
  intro w hw hgone
  rw [(h.gone w hw hgone).2] at hsenders
  cases hsenders

theorem not_stopped {w : Worker} (h : Orderly n s) (hw : s.workers[i]? = some w)
    (htask : w.task ≠ .gone) : s.isStopped ≠ true := by
  intro hstopped
  exact htask (isConnected_eq_false_iff.mp (h.stopped hstopped) w (List.mem_of_getElem? hw))

private theorem hasSenders_of_offer {o : Offer} (ho : s.offered[place]? = some o)
    (hadmission : o.admission ≠ .shutOut) : s.hasSenders = true := by
  by_contra hsenders
  have hnone := hasSenders_eq_false_iff.mp (Bool.eq_false_of_not_eq_true hsenders)
  exact hadmission (hnone.2 o (List.mem_of_getElem? ho))

/-- An offer that came in time keeps all workers from ending until it is answered. -/
theorem after (h : Orderly n s) (hm : s.Move st u) : Orderly n u := by
  have hset : ∀ i x, (s.workers.set i x).length = n := by
    intro i x
    rw [List.length_set, h.pool]
  cases hm with
  | offer r =>
    refine ⟨h.pool, ?_, h.stopped⟩
    intro w hw hgone
    -- A worker has ended, so the service is closed and the new offer is shut out.
    obtain ⟨hqueue, hsenders⟩ := h.gone w hw hgone
    refine ⟨hqueue, hasSenders_eq_false_iff.mpr ?_⟩
    obtain ⟨hclosed, hshut⟩ := hasSenders_eq_false_iff.mp hsenders
    refine ⟨hclosed, ?_⟩
    intro o ho
    rcases List.mem_append.mp ho with ho | ho
    · exact hshut o ho
    · rw [List.mem_singleton.mp ho, hclosed]
      rfl
  | send hoffer =>
    have hthere := h.not_gone (hasSenders_of_offer hoffer Admission.noConfusion)
    exact ⟨h.pool, fun w hw hgone => absurd hgone (hthere w hw), h.stopped⟩
  | retry hoffer log =>
    have hthere := h.not_gone (hasSenders_of_offer hoffer Admission.noConfusion)
    exact ⟨h.pool, fun w hw hgone => absurd hgone (hthere w hw), h.stopped⟩
  | confirm hoffer =>
    have hthere := h.not_gone (hasSenders_of_offer hoffer Admission.noConfusion)
    exact ⟨h.pool, fun w hw hgone => absurd hgone (hthere w hw), h.stopped⟩
  | turnAway hoffer hunsent log =>
    refine ⟨h.pool, ?_, h.stopped⟩
    intro w hw hgone
    obtain ⟨hqueue, hsenders⟩ := h.gone w hw hgone
    refine ⟨hqueue, hasSenders_eq_false_iff.mpr ?_⟩
    obtain ⟨hclosed, hshut⟩ := hasSenders_eq_false_iff.mp hsenders
    exact ⟨hclosed, fun o ho => hshut o (List.mem_of_mem_eraseIdx ho)⟩
  | take hworker hqueue =>
    have hbusy : ∀ w ∈ s.workers, w.task ≠ .gone := by
      intro w hw hgone
      rw [(h.gone w hw hgone).1] at hqueue
      cases hqueue
    refine ⟨hset _ _, ?_, fun hstopped => absurd hstopped (h.not_stopped hworker Task.noConfusion)⟩
    exact forall_mem_set (fun w hw hgone => absurd hgone (hbusy w hw)) Task.noConfusion
  | diagnose hworker log =>
    refine ⟨hset _ _, ?_, fun hstopped => absurd hstopped (h.not_stopped hworker Task.noConfusion)⟩
    exact forall_mem_set h.gone Task.noConfusion
  | tell hworker audience log =>
    refine ⟨hset _ _, ?_, fun hstopped => absurd hstopped (h.not_stopped hworker Task.noConfusion)⟩
    exact forall_mem_set h.gone Task.noConfusion
  | leave hworker hqueue hsenders =>
    refine ⟨hset _ _, ?_, fun hstopped => absurd hstopped (h.not_stopped hworker Task.noConfusion)⟩
    exact forall_mem_set (fun w hw hgone => ⟨hqueue, hsenders⟩) fun _ => ⟨hqueue, hsenders⟩
  | close hrunning =>
    have hsenders : s.hasSenders = true := by
      rw [hasSenders, hrunning, Bool.true_or]
    have hthere := h.not_gone hsenders
    exact ⟨h.pool, fun w hw hgone => absurd hgone (hthere w hw), h.stopped⟩
  | join hclosed hgone log => exact ⟨h.pool, h.gone, fun _ => hgone⟩

end Orderly

/-! ## Progress -/

def CanWork (s : Service) : Prop :=
  ∃ i, (s.step (.take i)).isSome ∨ (s.step (.diagnose i)).isSome ∨ (s.step (.tell i)).isSome

private theorem canWork_of_worker {w : Worker} (hw : s.workers[i]? = some w)
    (htask : w.task ≠ .gone) (hidle : w.task = .idle → s.queue ≠ []) : s.CanWork := by
  obtain ⟨session, task⟩ := w
  refine ⟨i, ?_⟩
  cases task with
  | idle =>
    left
    obtain ⟨r, queue, hqueue⟩ := List.exists_cons_of_ne_nil (hidle rfl)
    rw [step, hw, Option.bind_some, takeBy, hqueue]
    rfl
  | holding r =>
    right; left
    rw [step, hw]
    rfl
  | telling r o =>
    right; right
    rw [step, hw]
    rfl
  | gone => exact absurd rfl htask

/-- If no worker can go on, nothing waits and nobody has anything in hand. -/
theorem Orderly.finished (h : Orderly n s) (hn : 0 < n) (hstuck : ¬ s.CanWork) :
    s.queue = [] ∧ ∀ w ∈ s.workers, w.task.inHand? = none := by
  constructor
  · by_contra hqueue
    obtain ⟨w, hw⟩ : ∃ w, s.workers[0]? = some w :=
      ⟨_, List.getElem?_eq_getElem (h.pool.symm ▸ hn)⟩
    refine hstuck (canWork_of_worker hw ?_ fun _ => hqueue)
    intro hgone
    exact hqueue (h.gone w (List.mem_of_getElem? hw) hgone).1
  · intro w hw
    obtain ⟨i, hi⟩ := List.getElem?_of_mem hw
    cases htask : w.task with
    | idle => rfl
    | gone => rfl
    | holding r =>
      refine absurd (canWork_of_worker hi ?_ ?_) hstuck <;> simp [htask]
    | telling r o =>
      refine absurd (canWork_of_worker hi ?_ ?_) hstuck <;> simp [htask]

theorem Orderly.ended (h : Orderly n s) (hn : 0 < n) (hstopped : s.isStopped = true) :
    s.queue = [] ∧ ∀ w ∈ s.workers, w.task.inHand? = none := by
  have hgone := isConnected_eq_false_iff.mp (h.stopped hstopped)
  obtain ⟨w, hw⟩ := List.exists_mem_of_length_pos (h.pool.symm ▸ hn)
  refine ⟨(h.gone w hw (hgone w hw)).1, ?_⟩
  intro x hx
  rw [hgone x hx]
  rfl

def Step.isWork : Step → Bool
  | .take _ | .diagnose _ | .tell _ => true
  | _ => false

end SlowRequest.Service

namespace SlowRequest.Custody

open Service (Step)

variable {c : Custody} {s u : Service} {st : Step} {steps : List Step}

def effort (c : Custody) : Nat := c.sent.length + c.processed.length + c.completed.length

theorem effort_after (ht : c.Tracks s) (hm : s.Move st u) :
    (c.after st).queued.length + c.effort + [st].countP Step.isWork =
      c.queued.length + (c.after st).effort := by
  cases hm with
  | offer r => rfl
  | send hoffer =>
    obtain ⟨t, hx, -⟩ := ht.offer_at hoffer
    simp only [Custody.after, hx, effort, List.length_append, List.length_singleton,
      List.countP_singleton, Step.isWork, Bool.false_eq_true, reduceIte]
    omega
  | retry hoffer log => rfl
  | confirm hoffer =>
    obtain ⟨t, hx, -⟩ := ht.offer_at hoffer
    simp only [Custody.after, hx]
    rfl
  | turnAway hoffer hunsent log =>
    obtain ⟨t, hx, -⟩ := ht.offer_at hoffer
    simp only [Custody.after, hx]
    rfl
  | take hworker hqueue =>
    obtain ⟨t, queued, hq, -, -⟩ := ht.next_queued hqueue
    simp only [Custody.after, hq, effort, List.length_cons, List.countP_singleton, Step.isWork,
      reduceIte]
    omega
  | diagnose hworker log =>
    obtain ⟨t, hx, -⟩ := ht.held_at hworker rfl
    simp only [Custody.after, hx, effort, List.length_append, List.length_singleton,
      List.countP_singleton, Step.isWork, reduceIte]
    omega
  | tell hworker audience log =>
    obtain ⟨t, hx, -⟩ := ht.held_at hworker rfl
    simp only [Custody.after, hx, effort, List.length_append, List.length_singleton,
      List.countP_singleton, Step.isWork, reduceIte]
    omega
  | leave hworker hqueue hsenders => rfl
  | close hrunning => rfl
  | join hclosed hgone log => rfl

theorem Whole.effort_le (h : c.Whole) : c.effort ≤ 3 * c.sent.length := by
  have hprocessed : c.processed.length ≤ c.sent.length := Multiset.card_le_card h.processed_le
  have hcompleted : c.completed.length ≤ c.sent.length := Multiset.card_le_card h.completed_le
  rw [effort]
  omega

end SlowRequest.Custody
