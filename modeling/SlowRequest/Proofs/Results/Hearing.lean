import SlowRequest.Proofs.Results.Keeping
import SlowRequest.Results.Happening
/-!
# What listeners have heard

An audience is told listener by listener, and a listener takes a batch as its occurrences. So in
whatever order they stand and whatever else is told, each listener ends as if it alone had been
given all occurrences one by one.
-/
namespace SlowRequest

namespace Happening

def delivered : Happening → List Occurrence
  | told notice => notice.occurrences
  | cleared => []

def singly : Happening → List Happening
  | told notice => notice.occurrences.map fun o => told (.result o)
  | cleared => [cleared]

end Happening

namespace Listener

private theorem takeAll_eq (l : Listener) (os : List Occurrence) :
    (l.takeAll os).1 = os.foldl hear l := by
  induction os generalizing l with
  | nil => rfl
  | cons o os ih => exact ih (l.hear o)

private theorem receive_eq (l : Listener) (notice : Notice) :
    (l.receive notice).1 = notice.occurrences.foldl hear l := by
  cases notice with
  | result o => rfl
  | results batch => exact l.takeAll_eq batch
  | failure e => cases l <;> rfl

theorem foldl_hear_printer (names : NameTable) (os : List Occurrence) :
    os.foldl hear (printer names) = printer names := by
  induction os with
  | nil => rfl
  | cons o os ih => exact ih

theorem foldl_hear_store (s : OccurrenceStore) (os : List Occurrence) :
    os.foldl hear (store s) = store (os.foldl OccurrenceStore.insert s) := by
  induction os generalizing s with
  | nil => rfl
  | cons o os ih => exact ih (s.insert o)

theorem foldl_hear_index (x : RootIndex) (os : List Occurrence) :
    os.foldl hear (index x) = index (os.foldl RootIndex.insert x) := by
  induction os generalizing x with
  | nil => rfl
  | cons o os ih => exact ih (x.insert o)

private theorem after_append (l : Listener) (before later : List Happening) :
    l.after (before ++ later) = (l.after before).after later := List.foldl_append

private theorem after_singly (l : Listener) (h : Happening) : l.after h.singly = l.meet h := by
  cases h with
  | told notice =>
    rw [after, Happening.singly, List.foldl_map]
    exact (l.receive_eq notice).symm
  | cleared => rfl

/-- It makes no difference to a listener that occurrences come in batches. -/
theorem after_flatMap_singly (l : Listener) (happenings : List Happening) :
    l.after (happenings.flatMap Happening.singly) = l.after happenings := by
  induction happenings generalizing l with
  | nil => rfl
  | cons h happenings ih =>
    rw [List.flatMap_cons, after_append, after_singly, ih]
    rfl

theorem after_printer (names : NameTable) (happenings : List Happening) :
    (printer names).after happenings = printer names := by
  induction happenings with
  | nil => rfl
  | cons h happenings ih =>
    have hmeet : (printer names).meet h = printer names := by
      cases h with
      | told notice => rw [meet, receive_eq, foldl_hear_printer]
      | cleared => rfl
    rw [after, List.foldl_cons, hmeet]
    exact ih

theorem after_store (s : OccurrenceStore) (happenings : List Happening) :
    (store s).after happenings = store (happenings.foldl OccurrenceStore.meet s) := by
  induction happenings generalizing s with
  | nil => rfl
  | cons h happenings ih =>
    have hmeet : (store s).meet h = store (s.meet h) := by
      cases h with
      | told notice => rw [meet, receive_eq, foldl_hear_store, OccurrenceStore.meet]
      | cleared => rfl
    rw [after, List.foldl_cons, hmeet]
    exact ih _

theorem after_index (x : RootIndex) (happenings : List Happening) :
    (index x).after happenings =
      index ((happenings.flatMap Happening.delivered).foldl RootIndex.insert x) := by
  induction happenings generalizing x with
  | nil => rfl
  | cons h happenings ih =>
    have hmeet : (index x).meet h = index (h.delivered.foldl RootIndex.insert x) := by
      cases h with
      | told notice => rw [meet, receive_eq, foldl_hear_index, Happening.delivered]
      | cleared => rfl
    rw [List.flatMap_cons, List.foldl_append, after, List.foldl_cons, hmeet]
    exact ih _

end Listener

namespace Audience

theorem notify_eq_map (notice : Notice) (audience : Audience) :
    (notify notice audience).1 = audience.map fun l => (l.receive notice).1 := by
  induction audience with
  | nil => rfl
  | cons l audience ih => exact congrArg _ ih

theorem told_append (audience : Audience) (notices rest : List Notice) :
    audience.told (notices ++ rest) = (audience.told notices).told rest := List.foldl_append ..

theorem told_eq_map (audience : Audience) (notices : List Notice) :
    audience.told notices =
      audience.map fun l => (notices.flatMap Notice.occurrences).foldl Listener.hear l := by
  induction notices generalizing audience with
  | nil => exact (List.map_id audience).symm
  | cons notice notices ih =>
    rw [told, List.foldl_cons, notify_eq_map]
    refine (ih _).trans ?_
    rw [List.map_map]
    apply List.map_congr_left
    intro l _
    rw [Function.comp_apply, Listener.receive_eq, List.flatMap_cons, List.foldl_append]

private theorem meet_eq_map (audience : Audience) (h : Happening) :
    audience.meet h = audience.map fun l => l.meet h := by
  cases h with
  | told notice => exact notify_eq_map notice audience
  | cleared => rfl

/-- No listener of an audience notices the others. -/
theorem after_eq_map (audience : Audience) (happenings : List Happening) :
    audience.after happenings = audience.map fun l => l.after happenings := by
  induction happenings generalizing audience with
  | nil => exact (List.map_id audience).symm
  | cons h happenings ih =>
    rw [after, List.foldl_cons, meet_eq_map]
    refine (ih _).trans ?_
    rw [List.map_map]
    rfl

end Audience
end SlowRequest
