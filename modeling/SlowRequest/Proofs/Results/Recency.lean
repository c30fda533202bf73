import Mathlib.Data.Prod.Lex
import SlowRequest.Proofs.Results.Hearing
/-!
# The latest occurrences

A store drops its oldest occurrence when it is full, one for each that comes. So whatever befalls
it, it holds the latest occurrences of those delivered since it was last cleared, as many as it has
room for. A query picks from these, in their order, all that it matches.
-/
namespace SlowRequest

def Instant.place (i : Instant) : ℤ ×ₗ ℕ := toLex (i.seconds, i.nanos)

theorem Instant.le_iff {a b : Instant} : a.le b = true ↔ a.place ≤ b.place := by
  rw [le, place, place, Prod.Lex.toLex_le_toLex]
  simp

namespace OccurrenceQuery

/-- The occurrence has all that is asked for, and lies within the time bounds or on them. -/
structure Matches (q : OccurrenceQuery) (o : Occurrence) : Prop where
  application : ∀ id, q.application = some id → o.application = id
  businessTransaction : ∀ id, q.businessTransaction = some id → o.businessTransaction = id
  earliest : ∀ i, q.earliest = some i → i.place ≤ o.timestamp.place
  latest : ∀ i, q.latest = some i → o.timestamp.place ≤ i.place

theorem accepts_iff {q : OccurrenceQuery} {o : Occurrence} :
    q.accepts o = true ↔ q.Matches o := by
  simp only [accepts, Bool.and_eq_true, Option.all_eq_true, beq_iff_eq, Instant.le_iff]
  constructor
  · rintro ⟨⟨⟨happlication, htransaction⟩, hearliest⟩, hlatest⟩
    exact ⟨fun id hid => (happlication id hid).symm, fun id hid => (htransaction id hid).symm,
      hearliest, hlatest⟩
  · intro h
    exact ⟨⟨⟨fun id hid => (h.application id hid).symm,
      fun id hid => (h.businessTransaction id hid).symm⟩, h.earliest⟩, h.latest⟩

instance (q : OccurrenceQuery) : DecidablePred q.Matches := fun _ =>
  decidable_of_iff _ accepts_iff

end OccurrenceQuery

def Happening.isClearing : Happening → Bool
  | told _ => false
  | cleared => true

/-- The occurrences delivered since stores were last cleared, if they ever were. -/
def deliveredLately (happenings : List Happening) : List Occurrence :=
  (happenings.rtakeWhile (!·.isClearing)).flatMap Happening.delivered

private theorem deliveredLately_told (happenings : List Happening) (notice : Notice) :
    deliveredLately (happenings ++ [.told notice]) =
      deliveredLately happenings ++ notice.occurrences := by
  rw [deliveredLately, List.rtakeWhile_concat_pos _ _ _ rfl, List.flatMap_append,
    List.flatMap_singleton]
  rfl

private theorem deliveredLately_cleared (happenings : List Happening) :
    deliveredLately (happenings ++ [.cleared]) = [] := by
  rw [deliveredLately, List.rtakeWhile_concat_neg _ _ _ (by simp [Happening.isClearing])]
  rfl

private theorem length_rtake {α : Type} (l : List α) (n : Nat) :
    (l.rtake n).length = min n l.length := by
  rw [List.rtake, List.length_drop]
  omega

namespace OccurrenceStore

private theorem capacity_foldl_insert (s : OccurrenceStore) (os : List Occurrence) :
    (os.foldl insert s).capacity = s.capacity := by
  induction os generalizing s with
  | nil => rfl
  | cons o os ih => exact ih (s.insert o)

private theorem capacity_foldl_meet (s : OccurrenceStore) (happenings : List Happening) :
    (happenings.foldl meet s).capacity = s.capacity := by
  induction happenings generalizing s with
  | nil => rfl
  | cons h happenings ih =>
    rw [List.foldl_cons, ih]
    cases h with
    | told notice => exact s.capacity_foldl_insert notice.occurrences
    | cleared => rfl

private theorem occurrences_foldl_meet (capacity : Nat) (happenings : List Happening) :
    (happenings.foldl meet (new capacity)).occurrences =
      (deliveredLately happenings).rtake (max capacity 1) := by
  induction happenings using List.reverseRecOn with
  | nil => exact (List.rtake_nil _).symm
  | append_singleton happenings h ih =>
    rw [List.foldl_append, List.foldl_cons, List.foldl_nil]
    cases h with
    | told notice =>
      rw [meet, occurrences_foldl_insert, capacity_foldl_meet, capacity_new, ih,
        rtake_rtake_append, deliveredLately_told]
    | cleared =>
      rw [deliveredLately_cleared, List.rtake_nil]
      rfl

end OccurrenceStore

/-- Of the occurrences delivered since it was last cleared, a store holds the last, in the order
delivered: as many as its capacity, which is at least one, or all if there are fewer. A query
gives those of them that match it, in the same order. -/
theorem Listener.store_holds_latest (capacity : Nat) (happenings : List Happening) :
    ∃ s, (store (.new capacity)).after happenings = store s ∧
      s.capacity = max capacity 1 ∧
      s.occurrences = (deliveredLately happenings).rtake (max capacity 1) ∧
      s.size = min (max capacity 1) (deliveredLately happenings).length ∧
      ∀ q : OccurrenceQuery, s.query q = s.occurrences.filter fun o => q.Matches o := by
  have hlatest := OccurrenceStore.occurrences_foldl_meet capacity happenings
  refine ⟨_, after_store _ happenings, OccurrenceStore.capacity_foldl_meet _ _, hlatest, ?_, ?_⟩
  · rw [OccurrenceStore.size, hlatest, length_rtake]
  · intro q
    rw [OccurrenceStore.query]
    apply List.filter_congr
    intro o _
    rw [Bool.eq_iff_iff, OccurrenceQuery.accepts_iff, decide_eq_true_iff]

/-- A store without room still holds the last of a batch. -/
example (a b c : Occurrence) :
    ((Listener.store (.new 0)).after [.told (.result a), .told (.results [b, c])]).store?.map
      OccurrenceStore.occurrences = some [c] := rfl

end SlowRequest
