import Mathlib.Data.Finset.Card
import SlowRequest.Proofs.Results.Hearing
/-! # The first occurrence of a request -/
namespace SlowRequest

variable {o : Occurrence} {os : List Occurrence} {invocation : UInt64}

namespace RootIndex

theorem get?_insert (x : RootIndex) (o : Occurrence) (invocation : UInt64) :
    (x.insert o).get? invocation = (x.get? invocation).or
      (if o.requestRoot.invocationId = invocation then some o.id else none) := by
  rw [insert]
  cases hknown : x.get? o.requestRoot.invocationId with
  | some id =>
    by_cases hroot : o.requestRoot.invocationId = invocation
    · subst hroot
      rw [hknown]
      rfl
    · rw [if_neg hroot, Option.or_none]
  | none =>
    change (x.entries ++ [_]).lookup invocation = _
    rw [List.lookup_append, List.lookup_cons, List.lookup_nil]
    by_cases hroot : o.requestRoot.invocationId = invocation
    · rw [if_pos hroot, beq_iff_eq.mpr hroot.symm]
      rfl
    · rw [if_neg hroot, beq_eq_false_iff_ne.mpr (Ne.symm hroot)]
      rfl

private theorem get?_foldl_insert (x : RootIndex) (os : List Occurrence) (invocation : UInt64) :
    (os.foldl insert x).get? invocation = (x.get? invocation).or
      ((os.find? fun o => o.requestRoot.invocationId = invocation).map Occurrence.id) := by
  induction os generalizing x with
  | nil => exact (Option.or_none).symm
  | cons o os ih =>
    rw [List.foldl_cons, ih, get?_insert, Option.or_assoc, List.find?_cons]
    by_cases hroot : o.requestRoot.invocationId = invocation
    · rw [if_pos hroot, decide_eq_true hroot]
      rfl
    · rw [if_neg hroot, decide_eq_false hroot, Option.none_or]

private theorem get?_foldl_insert_of_some {x : RootIndex} {id : UInt64} (os : List Occurrence)
    (h : x.get? invocation = some id) : (os.foldl insert x).get? invocation = some id := by
  rw [get?_foldl_insert, h, Option.some_or]

theorem size_foldl_insert (os : List Occurrence) :
    (os.foldl insert empty).size = (os.map fun o => o.requestRoot.invocationId).toFinset.card := by
  have hnodup : (os.foldl insert empty).roots.Nodup := nodup_roots_foldl_insert List.nodup_nil
  have hroots : (os.foldl insert empty).roots.toFinset =
      (os.map fun o => o.requestRoot.invocationId).toFinset := by
    ext invocation
    rw [List.mem_toFinset, List.mem_toFinset, mem_roots_foldl_insert, List.mem_map]
    exact or_iff_right List.not_mem_nil
  rw [← hroots, List.toFinset_card_of_nodup hnodup, roots, List.length_map, size]

/-- The index answers for every request root by the first of the occurrences, and counts the
request roots among them. -/
structure Answers (x : RootIndex) (os : List Occurrence) : Prop where
  first : ∀ invocation, x.get? invocation =
    (os.find? fun o => o.requestRoot.invocationId = invocation).map Occurrence.id
  size : x.size = (os.map fun o => o.requestRoot.invocationId).toFinset.card

private theorem answers_foldl_insert (os : List Occurrence) :
    (os.foldl insert empty).Answers os where
  first invocation := by
    rw [get?_foldl_insert]
    exact Option.none_or
  size := size_foldl_insert os

end RootIndex

namespace Audience

variable {audience : Audience} {names : NameTable} {s : OccurrenceStore} {x : RootIndex}

theorem index?_of_perm (h : audience.Perm [.printer names, .store s, .index x]) :
    audience.index? = some x := by
  have hmem : Listener.index x ∈ audience := h.symm.subset (by simp)
  have hfound : (audience.findSome? Listener.index?).isSome :=
    List.findSome?_isSome_iff.mpr ⟨_, hmem, rfl⟩
  obtain ⟨y, hy⟩ := Option.isSome_iff_exists.mp hfound
  obtain ⟨l, hl, hindex⟩ := List.exists_of_findSome?_eq_some hy
  have hl := h.subset hl
  simp only [List.mem_cons, List.not_mem_nil, or_false] at hl
  rcases hl with rfl | rfl | rfl
  · cases hindex
  · cases hindex
  · exact hy.trans hindex.symm

private theorem after_perm (h : audience.Perm [.printer names, .store s, .index x])
    (happenings : List Happening) :
    (audience.after happenings).Perm [.printer names, .store (happenings.foldl .meet s),
      .index ((happenings.flatMap Happening.delivered).foldl RootIndex.insert x)] := by
  rw [after_eq_map]
  refine (h.map _).trans (.of_eq ?_)
  rw [List.map_cons, List.map_cons, List.map_singleton, Listener.after_printer,
    Listener.after_store, Listener.after_index]

/-- A printer, a store and an index, in any order, each end as if it alone had been given the
occurrences one by one. The index then answers for a request root by the first occurrence ever
delivered for it, and nothing that befalls the audience later changes such an answer. -/
theorem first_occurrence_stands
    (haudience : audience.Perm [.printer names, .store s, .index .empty])
    (happenings : List Happening) :
    (audience.after happenings =
        audience.map fun l => l.after (happenings.flatMap Happening.singly)) ∧
      ∃ x, (audience.after happenings).index? = some x ∧
        x.Answers (happenings.flatMap Happening.delivered) ∧
        ∀ later, ∃ y, (audience.after (happenings ++ later)).index? = some y ∧
          ∀ invocation id, x.get? invocation = some id → y.get? invocation = some id := by
  constructor
  · rw [after_eq_map]
    exact List.map_congr_left fun l _ => (l.after_flatMap_singly happenings).symm
  · refine ⟨_, index?_of_perm (after_perm haudience happenings),
      RootIndex.answers_foldl_insert _, ?_⟩
    intro later
    refine ⟨_, index?_of_perm (after_perm haudience (happenings ++ later)), ?_⟩
    intro invocation id hanswer
    rw [List.flatMap_append, List.foldl_append]
    exact RootIndex.get?_foldl_insert_of_some _ hanswer

end Audience

def Occurrence.sketch (id invocation : UInt64) : Occurrence :=
  { (default : Occurrence) with
    id, requestRoot := { (default : CallReference) with invocationId := invocation } }

def indexFirst : Audience := [.index .empty, .store (.new 1), .printer .empty]

/-- Three occurrences of two requests, with a clearing and a failure in between. -/
def twoRequests : List Happening :=
  [.told (.results [.sketch 7 100, .sketch 8 100]), .cleared,
    .told (.failure (.illegalState "call" .idle)), .told (.result (.sketch 9 500))]

/-- The index answers by the first of two occurrences, which the store dropped for the second. -/
theorem indexFirst_twoRequests :
    indexFirst.Perm [.printer .empty, .store (.new 1), .index .empty] ∧
      (indexFirst.after twoRequests).index? = some ⟨[(100, 7), (500, 9)]⟩ ∧
      (indexFirst.after twoRequests =
        indexFirst.map fun l => l.after (twoRequests.flatMap Happening.singly)) ∧
      ∃ x, (indexFirst.after twoRequests).index? = some x ∧
        x.Answers (twoRequests.flatMap Happening.delivered) ∧
        ∀ later, ∃ y, (indexFirst.after (twoRequests ++ later)).index? = some y ∧
          ∀ invocation id, x.get? invocation = some id → y.get? invocation = some id := by
  have hperm : indexFirst.Perm [.printer .empty, .store (.new 1), .index .empty] :=
    List.reverse_perm [Listener.printer .empty, .store (.new 1), .index .empty]
  exact ⟨hperm, by rfl, Audience.first_occurrence_stands hperm twoRequests⟩

end SlowRequest
