import SlowRequest.Proofs.Service.Moves
import Mathlib.Algebra.Order.Group.Multiset
import Mathlib.Data.List.InsertIdx
import Mathlib.Data.List.Perm.Basic
/-!
# Where requests are

Every offer gets a ticket. The tickets are followed through a run by its steps alone: a sent one is
in the queue, with one worker or completed, and in no two places. What the service holds is what
the tickets say it holds.
-/
namespace SlowRequest

def Offer.isSent (o : Offer) : Bool := decide (o.admission = .sent)

def Task.inHand? : Task → Option (DiagnosisRequest × Bool)
  | .idle | .gone => none
  | .holding r => some (r, false)
  | .telling r _ => some (r, true)

/-- A request and the number of the call that offered it. -/
structure Ticket where
  call : Nat
  request : DiagnosisRequest

structure Custody where
  /-- In the order of the calls. -/
  calls : List Ticket
  /-- Calls that have not returned, each with whether its request is sent. -/
  underWay : List (Ticket × Bool)
  sent : List Ticket
  queued : List Ticket
  /-- What each worker has in hand, with whether it is diagnosed. -/
  held : List (Option (Ticket × Bool))
  processed : List Ticket
  completed : List Ticket
  /-- Calls that returned with success. -/
  admitted : List Ticket
  /-- Calls that returned without. -/
  refused : List Ticket

namespace Custody

variable {c : Custody} {s u : Service} {st : Service.Step} {t : Ticket} {place i : Nat}

def new (workers : Nat) : Custody := ⟨[], [], [], [], .replicate workers none, [], [], [], []⟩

def after (c : Custody) : Service.Step → Custody
  | .offer r =>
    let t : Ticket := ⟨c.calls.length, r⟩
    { c with calls := c.calls ++ [t], underWay := c.underWay ++ [(t, false)] }
  | .send place =>
    match c.underWay[place]? with
    | some (t, _) =>
      { c with
        underWay := c.underWay.set place (t, true)
        sent := c.sent ++ [t]
        queued := c.queued ++ [t] }
    | none => c
  | .confirm place =>
    match c.underWay[place]? with
    | some (t, _) =>
      { c with underWay := c.underWay.eraseIdx place, admitted := c.admitted ++ [t] }
    | none => c
  | .turnAway place =>
    match c.underWay[place]? with
    | some (t, _) =>
      { c with underWay := c.underWay.eraseIdx place, refused := c.refused ++ [t] }
    | none => c
  | .take i =>
    match c.queued with
    | t :: queued => { c with queued, held := c.held.set i (some (t, false)) }
    | [] => c
  | .diagnose i =>
    match c.held[i]? with
    | some (some (t, _)) =>
      { c with held := c.held.set i (some (t, true)), processed := c.processed ++ [t] }
    | _ => c
  | .tell i =>
    match c.held[i]? with
    | some (some (t, _)) =>
      { c with held := c.held.set i none, completed := c.completed ++ [t] }
    | _ => c
  | .retry _ | .leave _ | .close | .join => c

def of (workers : Nat) (steps : List Service.Step) : Custody := steps.foldl after (new workers)

def unanswered (c : Custody) : Multiset Ticket :=
  (c.underWay : Multiset (Ticket × Bool)).map Prod.fst

def marked? (x : Ticket × Bool) : Option Ticket := if x.2 then some x.1 else none

def markedIn? (x : Option (Ticket × Bool)) : Option Ticket := x.bind marked?

/-- Sent, but the producer does not know yet. -/
def unconfirmed (c : Custody) : Multiset Ticket :=
  (c.underWay : Multiset (Ticket × Bool)).filterMap marked?

def inHand (c : Custody) : Multiset Ticket :=
  (c.held : Multiset (Option (Ticket × Bool))).filterMap (Option.map Prod.fst)

def untold (c : Custody) : Multiset Ticket :=
  (c.held : Multiset (Option (Ticket × Bool))).filterMap markedIn?

/-! ## No ticket is lost or doubled -/

/-- Every call is in one state, and every sent ticket in one place. -/
structure Whole (c : Custody) : Prop where
  numbered : c.calls.map Ticket.call = List.range c.calls.length
  answered : (c.calls : Multiset Ticket) = c.unanswered + c.admitted + c.refused
  confirmed : (c.sent : Multiset Ticket) = c.unconfirmed + c.admitted
  placed : (c.sent : Multiset Ticket) = c.queued + c.inHand + c.completed
  told : (c.processed : Multiset Ticket) = c.untold + c.completed

theorem Whole.new (workers : Nat) : (new workers).Whole := by
  refine ⟨rfl, rfl, rfl, ?_, ?_⟩
  · rw [inHand, Custody.new, Multiset.filterMap_coe, List.filterMap_replicate_of_none rfl]
    rfl
  · rw [untold, Custody.new, Multiset.filterMap_coe, List.filterMap_replicate_of_none rfl]
    rfl

private theorem exchange {α : Type} {l : List α} {n : Nat} {x : α} (h : l[n]? = some x) :
    (l : Multiset α) = x ::ₘ (l.eraseIdx n : Multiset α) ∧
      ∀ y, (l.set n y : Multiset α) = y ::ₘ (l.eraseIdx n : Multiset α) := by
  obtain ⟨hlt, rfl⟩ := List.getElem?_eq_some_iff.mp h
  constructor
  · exact Multiset.coe_eq_coe.mpr (List.getElem_cons_eraseIdx_perm hlt).symm
  · intro y
    exact Multiset.coe_eq_coe.mpr (List.set_perm_cons_eraseIdx hlt y)

private theorem coe_concat {α : Type} (l : List α) (x : α) :
    (l ++ [x] : List α) = x ::ₘ (l : Multiset α) := by
  rw [← Multiset.coe_add, Multiset.coe_singleton, add_comm, Multiset.singleton_add]

namespace Whole

theorem offer (h : c.Whole) (r : DiagnosisRequest) : (c.after (.offer r)).Whole := by
  refine ⟨?_, ?_, ?_, h.placed, h.told⟩
  · simp [after, h.numbered, List.range_succ]
  · simp only [after, unanswered, coe_concat, Multiset.map_cons, h.answered, Multiset.cons_add]
  · rw [after, unconfirmed, coe_concat, Multiset.filterMap_cons_none _ _ rfl]
    exact h.confirmed

-- In each step one entry of a list is replaced or dropped. The readings of the others stay, so it
-- is enough to compare the readings of that entry before and after.
theorem send (h : c.Whole) (ht : c.underWay[place]? = some (t, false)) :
    (c.after (.send place)).Whole := by
  obtain ⟨hold, hnew⟩ := exchange ht
  have hanswered := h.answered
  have hconfirmed := h.confirmed
  rw [unanswered, hold] at hanswered
  rw [unconfirmed, hold, Multiset.filterMap_cons_none _ _ rfl] at hconfirmed
  simp only [after, ht]
  refine ⟨h.numbered, ?_, ?_, ?_, h.told⟩
  · rw [unanswered, hnew]
    exact hanswered
  · rw [unconfirmed, hnew, coe_concat, hconfirmed, Multiset.filterMap_cons_some marked? _ _ rfl,
      Multiset.cons_add]
  · rw [inHand, coe_concat, coe_concat, h.placed, inHand, Multiset.cons_add, Multiset.cons_add]

theorem confirm (h : c.Whole) (ht : c.underWay[place]? = some (t, true)) :
    (c.after (.confirm place)).Whole := by
  obtain ⟨hold, -⟩ := exchange ht
  have hanswered := h.answered
  have hconfirmed := h.confirmed
  rw [unanswered, hold, Multiset.map_cons] at hanswered
  rw [unconfirmed, hold, Multiset.filterMap_cons_some marked? _ _ rfl] at hconfirmed
  simp only [after, ht]
  refine ⟨h.numbered, ?_, ?_, h.placed, h.told⟩
  · rw [hanswered, unanswered, coe_concat, Multiset.cons_add, Multiset.add_cons]
  · rw [hconfirmed, unconfirmed, coe_concat, Multiset.cons_add, Multiset.add_cons]

theorem turnAway (h : c.Whole) (ht : c.underWay[place]? = some (t, false)) :
    (c.after (.turnAway place)).Whole := by
  obtain ⟨hold, -⟩ := exchange ht
  have hanswered := h.answered
  have hconfirmed := h.confirmed
  rw [unanswered, hold, Multiset.map_cons] at hanswered
  rw [unconfirmed, hold, Multiset.filterMap_cons_none _ _ rfl] at hconfirmed
  simp only [after, ht]
  refine ⟨h.numbered, ?_, hconfirmed, h.placed, h.told⟩
  rw [hanswered, unanswered, coe_concat, Multiset.cons_add, Multiset.cons_add, Multiset.add_cons]

theorem take {queued : List Ticket} (h : c.Whole) (hqueue : c.queued = t :: queued)
    (hheld : c.held[i]? = some none) : (c.after (.take i)).Whole := by
  obtain ⟨hold, hnew⟩ := exchange hheld
  have hplaced := h.placed
  have htold := h.told
  rw [inHand, hold, hqueue, ← Multiset.cons_coe, Multiset.filterMap_cons_none _ _ rfl] at hplaced
  rw [untold, hold, Multiset.filterMap_cons_none _ _ rfl] at htold
  simp only [after, hqueue]
  refine ⟨h.numbered, h.answered, h.confirmed, ?_, ?_⟩
  · rw [hplaced, inHand, hnew, Multiset.filterMap_cons_some (Option.map Prod.fst) _ _ rfl,
      Multiset.add_cons, Multiset.cons_add]
  · rw [htold, untold, hnew, Multiset.filterMap_cons_none _ _ rfl]

theorem diagnose (h : c.Whole) (hheld : c.held[i]? = some (some (t, false))) :
    (c.after (.diagnose i)).Whole := by
  obtain ⟨hold, hnew⟩ := exchange hheld
  have hplaced := h.placed
  have htold := h.told
  rw [inHand, hold, Multiset.filterMap_cons_some (Option.map Prod.fst) _ _ rfl] at hplaced
  rw [untold, hold, Multiset.filterMap_cons_none _ _ rfl] at htold
  simp only [after, hheld]
  refine ⟨h.numbered, h.answered, h.confirmed, ?_, ?_⟩
  · rw [hplaced, inHand, hnew, Multiset.filterMap_cons_some (Option.map Prod.fst) _ _ rfl]
  · rw [coe_concat, htold, untold, hnew, Multiset.filterMap_cons_some markedIn? _ _ rfl,
      Multiset.cons_add]

theorem tell (h : c.Whole) (hheld : c.held[i]? = some (some (t, true))) :
    (c.after (.tell i)).Whole := by
  obtain ⟨hold, hnew⟩ := exchange hheld
  have hplaced := h.placed
  have htold := h.told
  rw [inHand, hold, Multiset.filterMap_cons_some (Option.map Prod.fst) _ _ rfl] at hplaced
  rw [untold, hold, Multiset.filterMap_cons_some markedIn? _ _ rfl] at htold
  simp only [after, hheld]
  refine ⟨h.numbered, h.answered, h.confirmed, ?_, ?_⟩
  · rw [hplaced, inHand, hnew, coe_concat, Multiset.filterMap_cons_none _ _ rfl,
      Multiset.add_cons, Multiset.cons_add, Multiset.add_cons]
  · rw [htold, untold, hnew, coe_concat, Multiset.filterMap_cons_none _ _ rfl,
      Multiset.cons_add, Multiset.add_cons]

end Whole

private theorem filterMap_le {α β : Type} {f g : α → Option β} (h : ∀ x, f x = none ∨ f x = g x)
    (m : Multiset α) : m.filterMap f ≤ m.filterMap g := by
  induction m using Multiset.induction_on with
  | empty => exact le_refl 0
  | cons x rest ih =>
    rw [Multiset.filterMap_cons, Multiset.filterMap_cons]
    rcases h x with hx | hx
    · rw [hx, Option.map_none, Option.getD_none, zero_add]
      exact ih.trans (Multiset.le_add_left _ _)
    · rw [hx]
      gcongr

private theorem unconfirmed_le (c : Custody) : c.unconfirmed ≤ c.unanswered := by
  rw [unconfirmed, unanswered, ← Multiset.filterMap_eq_map]
  apply filterMap_le
  rintro ⟨t, _ | _⟩
  · exact .inl rfl
  · exact .inr rfl

private theorem untold_le (c : Custody) : c.untold ≤ c.inHand := by
  apply filterMap_le
  rintro (_ | ⟨t, _ | _⟩)
  · exact .inl rfl
  · exact .inl rfl
  · exact .inr rfl

namespace Whole

theorem nodup_calls (h : c.Whole) : c.calls.Nodup := by
  apply List.Nodup.of_map Ticket.call
  rw [h.numbered]
  exact List.nodup_range

private theorem sent_add_refused_le (h : c.Whole) :
    (c.sent : Multiset Ticket) + c.refused ≤ (c.calls : Multiset Ticket) := by
  rw [h.answered, h.confirmed]
  gcongr
  exact c.unconfirmed_le

private theorem nodup_sent_add_refused (h : c.Whole) :
    ((c.sent : Multiset Ticket) + c.refused).Nodup :=
  Multiset.nodup_of_le h.sent_add_refused_le h.nodup_calls

theorem nodup_sent (h : c.Whole) : c.sent.Nodup :=
  Multiset.nodup_of_le (Multiset.le_add_right _ _) h.nodup_sent_add_refused

theorem processed_le (h : c.Whole) :
    (c.processed : Multiset Ticket) ≤ (c.sent : Multiset Ticket) := by
  rw [h.told, h.placed]
  gcongr
  exact c.untold_le.trans (Multiset.le_add_left _ _)

theorem completed_le (h : c.Whole) :
    (c.completed : Multiset Ticket) ≤ (c.sent : Multiset Ticket) := by
  rw [h.placed]
  exact Multiset.le_add_left _ _

theorem admitted_le (h : c.Whole) :
    (c.admitted : Multiset Ticket) ≤ (c.sent : Multiset Ticket) := by
  rw [h.confirmed]
  exact Multiset.le_add_left _ _

theorem disjoint_sent_refused (h : c.Whole) : c.sent.Disjoint c.refused :=
  List.disjoint_of_nodup_append h.nodup_sent_add_refused

end Whole

/-! ## The service holds what the tickets say -/

def entry (x : Ticket × Bool) : DiagnosisRequest × Bool := (x.1.request, x.2)

structure Tracks (c : Custody) (s : Service) : Prop where
  offered : c.underWay.map entry = s.offered.map fun o => (o.request, o.isSent)
  queue : c.queued.map Ticket.request = s.queue
  workers : c.held.map (Option.map entry) = s.workers.map fun w => w.task.inHand?

namespace Tracks

theorem offer_at {o : Offer} (h : c.Tracks s) (ho : s.offered[place]? = some o) :
    ∃ t, c.underWay[place]? = some (t, o.isSent) ∧ t.request = o.request := by
  have hplace := congrArg (·[place]?) h.offered
  simp only [List.getElem?_map, ho, Option.map_some] at hplace
  obtain ⟨⟨t, b⟩, hx, heq⟩ := Option.map_eq_some_iff.mp hplace
  obtain ⟨hr, hb⟩ := Prod.mk.inj heq
  exact ⟨t, hb ▸ hx, hr⟩

private theorem worker_at {w : Worker} (h : c.Tracks s) (hw : s.workers[i]? = some w) :
    ∃ x, c.held[i]? = some x ∧ x.map entry = w.task.inHand? := by
  have hplace := congrArg (·[i]?) h.workers
  simp only [List.getElem?_map, hw, Option.map_some] at hplace
  exact Option.map_eq_some_iff.mp hplace

theorem held_at {w : Worker} {r : DiagnosisRequest} {b : Bool} (h : c.Tracks s)
    (hw : s.workers[i]? = some w) (htask : w.task.inHand? = some (r, b)) :
    ∃ t, c.held[i]? = some (some (t, b)) ∧ t.request = r := by
  obtain ⟨x, hx, heq⟩ := h.worker_at hw
  rw [htask] at heq
  obtain ⟨⟨t, b'⟩, rfl, hentry⟩ := Option.map_eq_some_iff.mp heq
  obtain ⟨hr, hb⟩ := Prod.mk.inj hentry
  exact ⟨t, hb ▸ hx, hr⟩

theorem free_at {w : Worker} (h : c.Tracks s) (hw : s.workers[i]? = some w)
    (htask : w.task.inHand? = none) : c.held[i]? = some none := by
  obtain ⟨x, hx, heq⟩ := h.worker_at hw
  rw [htask] at heq
  rw [Option.map_eq_none_iff.mp heq] at hx
  exact hx

theorem next_queued {r : DiagnosisRequest} {queue : List DiagnosisRequest} (h : c.Tracks s)
    (hqueue : s.queue = r :: queue) : ∃ t queued, c.queued = t :: queued ∧ t.request = r ∧
      queued.map Ticket.request = queue := by
  obtain ⟨t, queued, hq, hr, hrest⟩ := List.map_eq_cons_iff.mp (h.queue.trans hqueue)
  exact ⟨t, queued, hq, hr, hrest⟩

private theorem set_eq_self {α : Type} {l : List α} {n : Nat} {x : α} (h : l[n]? = some x) :
    l.set n x = l := by
  obtain ⟨hlt, rfl⟩ := List.getElem?_eq_some_iff.mp h
  exact List.set_getElem_self hlt

theorem new (settings : ServiceSettings) (graph : DiagnosisGraph) (audience : Audience) :
    (new settings.workers).Tracks (.ofGraph settings graph audience) := by
  refine ⟨rfl, rfl, ?_⟩
  simp [Custody.new, Service.ofGraph, Task.inHand?]

/-- Tickets move as the requests do. -/
theorem after (h : c.Tracks s) (hm : s.Move st u) : (c.after st).Tracks u := by
  cases hm with
  | offer r =>
    refine ⟨?_, h.queue, h.workers⟩
    simp only [Custody.after, List.map_append, h.offered, List.map_cons, List.map_nil]
    cases s.isRunning <;> rfl
  | send hoffer =>
    obtain ⟨t, ht, rfl⟩ := h.offer_at hoffer
    simp only [Custody.after, ht]
    refine ⟨?_, ?_, h.workers⟩
    · rw [List.map_set, List.map_set, h.offered]
      rfl
    · rw [List.map_append, h.queue]
      rfl
  | retry hoffer log =>
    refine ⟨?_, h.queue, h.workers⟩
    rw [List.map_set, set_eq_self]
    · exact h.offered
    · rw [List.getElem?_map, hoffer]
      rfl
  | confirm hoffer =>
    obtain ⟨t, ht, -⟩ := h.offer_at hoffer
    simp only [Custody.after, ht]
    refine ⟨?_, h.queue, h.workers⟩
    rw [← List.eraseIdx_map, ← List.eraseIdx_map, h.offered]
  | turnAway hoffer hunsent log =>
    obtain ⟨t, ht, -⟩ := h.offer_at hoffer
    simp only [Custody.after, ht]
    refine ⟨?_, h.queue, h.workers⟩
    rw [← List.eraseIdx_map, ← List.eraseIdx_map, h.offered]
  | take hworker hqueue =>
    obtain ⟨t, queued, hq, rfl, rfl⟩ := h.next_queued hqueue
    simp only [Custody.after, hq]
    refine ⟨h.offered, rfl, ?_⟩
    rw [List.map_set, List.map_set, h.workers]
    rfl
  | diagnose hworker log =>
    obtain ⟨t, ht, rfl⟩ := h.held_at hworker rfl
    simp only [Custody.after, ht]
    refine ⟨h.offered, h.queue, ?_⟩
    rw [List.map_set, List.map_set, h.workers]
    rfl
  | tell hworker audience log =>
    obtain ⟨t, ht, -⟩ := h.held_at hworker rfl
    simp only [Custody.after, ht]
    refine ⟨h.offered, h.queue, ?_⟩
    rw [List.map_set, List.map_set, h.workers]
    rfl
  | leave hworker hqueue hsenders =>
    refine ⟨h.offered, h.queue, ?_⟩
    rw [List.map_set, set_eq_self]
    · exact h.workers
    · rw [List.getElem?_map, hworker]
      rfl
  | close hrunning => exact ⟨h.offered, h.queue, h.workers⟩
  | join hclosed hgone log => exact ⟨h.offered, h.queue, h.workers⟩

end Tracks

theorem Tracks.all_completed (ht : c.Tracks s) (h : c.Whole) (hqueue : s.queue = [])
    (hfree : ∀ w ∈ s.workers, w.task.inHand? = none) :
    c.completed.Perm c.sent ∧ c.processed.Perm c.sent := by
  have hqueued : c.queued = [] := List.map_eq_nil_iff.mp (ht.queue.trans hqueue)
  have hheld : ∀ x ∈ c.held, x = none := by
    intro x hx
    have hmem := List.mem_map_of_mem (f := Option.map entry) hx
    rw [ht.workers] at hmem
    obtain ⟨w, hw, hentry⟩ := List.mem_map.mp hmem
    rw [hfree w hw] at hentry
    exact Option.map_eq_none_iff.mp hentry.symm
  have hinHand : c.inHand = 0 := by
    rw [inHand, Multiset.filterMap_coe, List.filterMap_eq_nil_iff.mpr]
    · rfl
    · intro x hx
      rw [hheld x hx]
      rfl
  have huntold : c.untold = 0 := Multiset.le_zero.mp (hinHand ▸ c.untold_le)
  have hplaced := h.placed
  have htold := h.told
  rw [hqueued, hinHand, Multiset.coe_nil, zero_add, zero_add] at hplaced
  rw [huntold, zero_add, ← hplaced] at htold
  exact ⟨Multiset.coe_eq_coe.mp hplaced.symm, Multiset.coe_eq_coe.mp htold⟩

theorem Tracks.all_answered (ht : c.Tracks s) (h : c.Whole) (hoffered : s.offered = []) :
    c.calls.Perm (c.admitted ++ c.refused) ∧ c.sent.Perm c.admitted := by
  have hunderWay : c.underWay = [] := by
    have hnil := ht.offered
    rw [hoffered] at hnil
    exact List.map_eq_nil_iff.mp hnil
  have hanswered := h.answered
  have hconfirmed := h.confirmed
  rw [unanswered, hunderWay, Multiset.coe_nil, Multiset.map_zero, zero_add] at hanswered
  rw [unconfirmed, hunderWay, Multiset.coe_nil, Multiset.filterMap_zero, zero_add] at hconfirmed
  exact ⟨Multiset.coe_eq_coe.mp hanswered, Multiset.coe_eq_coe.mp hconfirmed⟩

theorem Whole.after (h : c.Whole) (ht : c.Tracks s) (hm : s.Move st u) : (c.after st).Whole := by
  cases hm with
  | offer r => exact h.offer r
  | send hoffer =>
    obtain ⟨t, hx, -⟩ := ht.offer_at hoffer
    exact h.send hx
  | retry hoffer log => exact h
  | confirm hoffer =>
    obtain ⟨t, hx, -⟩ := ht.offer_at hoffer
    exact h.confirm hx
  | turnAway hoffer hunsent log =>
    obtain ⟨t, hx, -⟩ := ht.offer_at hoffer
    rw [Offer.isSent, decide_eq_false hunsent] at hx
    exact h.turnAway hx
  | take hworker hqueue =>
    obtain ⟨t, queued, hq, -, -⟩ := ht.next_queued hqueue
    exact h.take hq (ht.free_at hworker rfl)
  | diagnose hworker log =>
    obtain ⟨t, hx, -⟩ := ht.held_at hworker rfl
    exact h.diagnose hx
  | tell hworker audience log =>
    obtain ⟨t, hx, -⟩ := ht.held_at hworker rfl
    exact h.tell hx
  | leave hworker hqueue hsenders => exact h
  | close hrunning => exact h
  | join hclosed hgone log => exact h

end Custody
end SlowRequest
