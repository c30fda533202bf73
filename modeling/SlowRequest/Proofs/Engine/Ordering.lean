import SlowRequest.Engine.RuleGraph
import Mathlib.Data.List.Basic
import Mathlib.Data.List.Count
import Mathlib.Data.List.Nodup
import Mathlib.Data.List.Perm.Basic
/-!
# Putting rules in order

Rules are ordered by counting how many producers each of them still misses. That takes the same
rules in the same order as looking each time for the first waiting rule that no waiting rule feeds,
and the rules that miss a producer in the end are the ones never taken.
-/
namespace SlowRequest

/-- Takes the first waiting position whose producers have all been taken, as long as there is
one; gives the positions taken, in order, and those still waiting. -/
def schedule (ds : List Descriptor) (taken waiting : List Nat) : List Nat × List Nat :=
  match _h : waiting.find? fun i => !waiting.any fun j => feeds ds j i with
  | none => (taken, waiting)
  | some i => schedule ds (taken ++ [i]) (waiting.erase i)
termination_by waiting.length
decreasing_by
  have hi := List.mem_of_find?_eq_some _h
  have := List.length_erase_of_mem hi
  have := List.length_pos_of_mem hi
  omega

theorem schedule_of_none {ds : List Descriptor} {taken waiting : List Nat}
    (h : (waiting.find? fun i => !waiting.any fun j => feeds ds j i) = none) :
    schedule ds taken waiting = (taken, waiting) := by
  rw [schedule]
  split
  · rfl
  · rename_i i hi
    rw [h] at hi
    cases hi

theorem schedule_of_some {ds : List Descriptor} {taken waiting : List Nat} {i : Nat}
    (h : (waiting.find? fun i => !waiting.any fun j => feeds ds j i) = some i) :
    schedule ds taken waiting = schedule ds (taken ++ [i]) (waiting.erase i) := by
  rw [schedule]
  split
  · rename_i hnone
    rw [h] at hnone
    cases hnone
  · rename_i j hj
    rw [h] at hj
    cases hj
    rfl

/-- What becomes of waiting elements when they are taken one after the other, each at a time when
no waiting one feeds it, until there is none to take. -/
structure Scheduled {α : Type} (feeds : α → α → Bool) (waiting taken stuck : List α) : Prop where
  perm : (taken ++ stuck).Perm waiting
  stuck_sublist : stuck.Sublist waiting
  own : ∀ x ∈ taken, feeds x x = false
  later : taken.Pairwise fun x y => feeds y x = false
  free : ∀ x ∈ taken, ∀ y ∈ stuck, feeds y x = false
  /-- A stuck element waits for another one, or for itself. -/
  waits : ∀ x ∈ stuck, ∃ y ∈ stuck, feeds y x = true

namespace Scheduled

variable {α β : Type} {feeds : α → α → Bool} {waiting taken stuck : List α} {x y : α}

theorem cons [DecidableEq α] (hx : x ∈ waiting) (hfree : ∀ y ∈ waiting, feeds y x = false)
    (h : Scheduled feeds (waiting.erase x) taken stuck) :
    Scheduled feeds waiting (x :: taken) stuck := by
  have hwaiting : ∀ y ∈ taken ++ stuck, y ∈ waiting := fun y hy =>
    List.mem_of_mem_erase (h.perm.subset hy)
  constructor
  · exact (h.perm.cons x).trans (List.perm_cons_erase hx).symm
  · exact h.stuck_sublist.trans List.erase_sublist
  · intro y hy
    rcases List.mem_cons.mp hy with rfl | hy
    · exact hfree y hx
    · exact h.own y hy
  · apply List.Pairwise.cons ?_ h.later
    intro y hy
    exact hfree y (hwaiting y (List.mem_append_left _ hy))
  · intro y hy z hz
    rcases List.mem_cons.mp hy with rfl | hy
    · exact hfree z (hwaiting z (List.mem_append_right _ hz))
    · exact h.free y hy z hz
  · exact h.waits

theorem filterMap {feeds' : β → β → Bool} (f : α → Option β)
    (hfeeds : ∀ {x y b c}, f x = some b → f y = some c → feeds' b c = feeds x y)
    (hall : ∀ x ∈ waiting, (f x).isSome) (h : Scheduled feeds waiting taken stuck) :
    Scheduled feeds' (waiting.filterMap f) (taken.filterMap f) (stuck.filterMap f) := by
  constructor
  · rw [← List.filterMap_append]
    exact h.perm.filterMap f
  · exact h.stuck_sublist.filterMap f
  · intro b hb
    obtain ⟨x, hx, hxb⟩ := List.mem_filterMap.mp hb
    rw [hfeeds hxb hxb]
    exact h.own x hx
  · apply h.later.filterMap
    intro x y hxy b hb c hc
    rw [hfeeds hc hb]
    exact hxy
  · intro b hb c hc
    obtain ⟨x, hx, hxb⟩ := List.mem_filterMap.mp hb
    obtain ⟨y, hy, hyc⟩ := List.mem_filterMap.mp hc
    rw [hfeeds hyc hxb]
    exact h.free x hx y hy
  · intro b hb
    obtain ⟨x, hx, hxb⟩ := List.mem_filterMap.mp hb
    obtain ⟨y, hy, hyx⟩ := h.waits x hx
    obtain ⟨c, hc⟩ := Option.isSome_iff_exists.mp (hall y (h.stuck_sublist.subset hy))
    refine ⟨c, List.mem_filterMap.mpr ⟨y, hy, hc⟩, ?_⟩
    rw [hfeeds hc hxb]
    exact hyx

theorem earlier [DecidableEq α] (h : Scheduled feeds waiting taken stuck) (hx : x ∈ taken)
    (hy : y ∈ waiting) (hfeeds : feeds y x = true) :
    y ∈ taken ∧ taken.idxOf y < taken.idxOf x := by
  have hmem : y ∈ taken := by
    rcases List.mem_append.mp (h.perm.symm.subset hy) with hy | hy
    · exact hy
    · rw [h.free x hx y hy] at hfeeds
      cases hfeeds
  refine ⟨hmem, ?_⟩
  by_contra hle
  rcases Nat.eq_or_lt_of_le (Nat.not_lt.mp hle) with heq | hlt
  · rw [List.idxOf_inj hx] at heq
    subst heq
    rw [h.own x hx] at hfeeds
    cases hfeeds
  · have hlater := List.pairwise_iff_getElem.mp h.later _ _ (List.idxOf_lt_length_iff.mpr hx)
      (List.idxOf_lt_length_iff.mpr hmem) hlt
    rw [List.getElem_idxOf, List.getElem_idxOf, hfeeds] at hlater
    cases hlater

end Scheduled

theorem schedule_spec {ds : List Descriptor} {taken waiting order stuck : List Nat}
    (h : schedule ds taken waiting = (order, stuck)) :
    ∃ rest, order = taken ++ rest ∧ Scheduled (feeds ds) waiting rest stuck := by
  induction hn : waiting.length using Nat.strongRecOn generalizing taken waiting with
  | ind n ih =>
    rw [schedule] at h
    split at h
    · rename_i hfind
      cases h
      refine ⟨[], by simp, List.Perm.refl _, List.Sublist.refl _, by simp, List.Pairwise.nil,
        by simp, ?_⟩
      intro i hi
      simpa using List.find?_eq_none.mp hfind i hi
    · rename_i i hfind
      have hi := List.mem_of_find?_eq_some hfind
      have hfree : ∀ j ∈ waiting, feeds ds j i = false := by
        simpa using List.find?_some hfind
      have hlen : (waiting.erase i).length < n := by
        have := List.length_pos_of_mem hi
        rw [List.length_erase_of_mem hi, hn]
        omega
      obtain ⟨rest, horder, hrest⟩ := ih _ hlen h rfl
      refine ⟨i :: rest, ?_, Scheduled.cons hi hfree hrest⟩
      rw [horder, List.append_assoc]
      rfl

variable {ds : List Descriptor} {waiting : List Nat} {c : Countdown} {i j : Nat}

private theorem producersAmong_eq_zero :
    producersAmong ds waiting i = 0 ↔ ∀ j ∈ waiting, feeds ds j i = false := by
  rw [producersAmong, List.countP_eq_zero]
  simp only [Bool.not_eq_true]

private theorem producersAmong_erase (hj : j ∈ waiting) :
    producersAmong ds (waiting.erase j) i =
      producersAmong ds waiting i - if feeds ds j i then 1 else 0 := by
  rw [producersAmong, List.countP_erase, producersAmong]
  simp only [hj, true_and]

private theorem mem_dependents : i ∈ dependents ds j ↔ i < ds.length ∧ feeds ds j i = true := by
  rw [dependents, List.mem_filter, List.mem_range]

private theorem nodup_dependents (ds : List Descriptor) (j : Nat) : (dependents ds j).Nodup :=
  List.nodup_range.filter _

namespace Countdown

section Releases

variable {is : List Nat}

private theorem getElem?_missing_release (c : Countdown) (i j : Nat) :
    (c.release i).missing[j]? =
      if i = j then c.missing[j]?.map (· - 1) else c.missing[j]? := by
  rw [release, List.getElem?_modify]
  split
  · rfl
  · exact congrFun Option.map_id _

private theorem mem_ready_release :
    j ∈ (c.release i).ready ↔ j ∈ c.ready ∨ j = i ∧ c.missing[j]? = some 1 := by
  rw [release]
  by_cases hone : c.missing[i]? = some 1
  · rw [if_pos hone, List.mem_cons]
    constructor
    · rintro (rfl | hj)
      · exact .inr ⟨rfl, hone⟩
      · exact .inl hj
    · rintro (hj | ⟨rfl, -⟩)
      · exact .inr hj
      · exact .inl rfl
  · rw [if_neg hone]
    constructor
    · exact .inl
    · rintro (hj | ⟨rfl, hj⟩)
      · exact hj
      · exact absurd hj hone

private theorem getElem?_missing_foldl_release (hnodup : is.Nodup) (j : Nat) :
    (is.foldl release c).missing[j]? =
      if j ∈ is then c.missing[j]?.map (· - 1) else c.missing[j]? := by
  induction is generalizing c with
  | nil => rfl
  | cons i is ih =>
    obtain ⟨hi, hnodup⟩ := List.nodup_cons.mp hnodup
    rw [List.foldl_cons, ih hnodup, getElem?_missing_release]
    by_cases hji : j = i
    · subst hji
      simp [hi]
    · simp [hji, Ne.symm hji]

private theorem mem_ready_foldl_release (hnodup : is.Nodup) :
    j ∈ (is.foldl release c).ready ↔ j ∈ c.ready ∨ j ∈ is ∧ c.missing[j]? = some 1 := by
  induction is generalizing c with
  | nil => simp
  | cons i is ih =>
    obtain ⟨hi, hnodup⟩ := List.nodup_cons.mp hnodup
    rw [List.foldl_cons, ih hnodup, mem_ready_release, getElem?_missing_release, List.mem_cons]
    by_cases hji : j = i
    · subst hji
      simp [hi]
    · simp [hji, Ne.symm hji]

private theorem nodup_ready_foldl_release (hnodup : is.Nodup) (hready : c.ready.Nodup)
    (hnew : ∀ i ∈ is, c.missing[i]? = some 1 → i ∉ c.ready) :
    (is.foldl release c).ready.Nodup := by
  induction is generalizing c with
  | nil => exact hready
  | cons i is ih =>
    obtain ⟨hi, hnodup⟩ := List.nodup_cons.mp hnodup
    apply ih hnodup
    · rw [release]
      by_cases hone : c.missing[i]? = some 1
      · rw [if_pos hone]
        exact List.nodup_cons.mpr ⟨hnew i List.mem_cons_self hone, hready⟩
      · rw [if_neg hone]
        exact hready
    · intro j hj hone hmem
      have hij : i ≠ j := fun h => hi (h ▸ hj)
      rw [getElem?_missing_release, if_neg hij] at hone
      rcases mem_ready_release.mp hmem with hmem | ⟨rfl, -⟩
      · exact hnew j (List.mem_cons_of_mem _ hj) hone hmem
      · exact hij rfl

end Releases

structure Counts (ds : List Descriptor) (waiting : List Nat) (c : Countdown) : Prop where
  ascending : waiting.Pairwise (· < ·)
  bound : ∀ i ∈ waiting, i < ds.length
  missing : ∀ i < ds.length, c.missing[i]? = some (producersAmong ds waiting i)
  ready : ∀ i, i ∈ c.ready ↔ i ∈ waiting ∧ producersAmong ds waiting i = 0
  nodup : c.ready.Nodup
  /-- A rule that was taken misses nothing. -/
  taken : ∀ i < ds.length, i ∉ waiting → producersAmong ds waiting i = 0

private theorem counts_initial (ds : List Descriptor) :
    (initial ds).Counts ds (List.range ds.length) where
  ascending := List.pairwise_lt_range
  bound _ hi := List.mem_range.mp hi
  missing i hi := by simp [initial, hi]
  ready i := by simp [initial]
  nodup := List.nodup_range.filter _
  taken i hi hnot := absurd (List.mem_range.mpr hi) hnot

namespace Counts

private theorem waiting_nodup (h : c.Counts ds waiting) : waiting.Nodup :=
  h.ascending.imp Nat.ne_of_lt

/-- After a rule is taken, those are ready that waited for it alone and those that were before. -/
theorem mem_ready_take {i : Nat} (h : c.Counts ds waiting) (hj : j ∈ c.ready) :
    i ∈ (c.take ds j).ready ↔
      i ∈ waiting.erase j ∧ producersAmong ds (waiting.erase j) i = 0 := by
  obtain ⟨hwaiting, hfree⟩ := (h.ready j).mp hj
  have hself : feeds ds j j = false := producersAmong_eq_zero.mp hfree j hwaiting
  have hdependents := nodup_dependents ds j
  rw [Countdown.take, mem_ready_foldl_release hdependents, h.nodup.mem_erase_iff,
    h.waiting_nodup.mem_erase_iff, producersAmong_erase hwaiting, h.ready, mem_dependents]
  constructor
  · rintro (⟨hne, hi, hzero⟩ | ⟨⟨hlt, hfeeds⟩, hone⟩)
    · exact ⟨⟨hne, hi⟩, by rw [hzero, Nat.zero_sub]⟩
    · rw [h.missing i hlt, Option.some.injEq] at hone
      refine ⟨⟨?_, ?_⟩, by rw [hone, if_pos hfeeds]⟩
      · rintro rfl
        rw [hself] at hfeeds
        cases hfeeds
      · by_contra hnot
        rw [h.taken i hlt hnot] at hone
        cases hone
  · rintro ⟨⟨hne, hi⟩, hzero⟩
    have hlt := h.bound i hi
    cases hfeeds : feeds ds j i with
    | false =>
      rw [hfeeds] at hzero
      exact .inl ⟨hne, hi, hzero⟩
    | true =>
      have hsome : producersAmong ds waiting i ≠ 0 := by
        intro hnone
        rw [producersAmong_eq_zero.mp hnone j hwaiting] at hfeeds
        cases hfeeds
      rw [hfeeds, if_pos rfl] at hzero
      refine .inr ⟨⟨hlt, rfl⟩, ?_⟩
      rw [h.missing i hlt, Option.some.injEq]
      omega

theorem take (h : c.Counts ds waiting) (hj : j ∈ c.ready) :
    (c.take ds j).Counts ds (waiting.erase j) := by
  obtain ⟨hwaiting, hfree⟩ := (h.ready j).mp hj
  have hsub : (waiting.erase j).Sublist waiting := List.erase_sublist
  have hdependents := nodup_dependents ds j
  constructor
  · exact h.ascending.sublist hsub
  · intro i hi
    exact h.bound i (hsub.subset hi)
  · intro i hi
    rw [Countdown.take, getElem?_missing_foldl_release hdependents, producersAmong_erase hwaiting]
    simp only [mem_dependents, hi, true_and, h.missing i hi, Option.map_some]
    split <;> rfl
  · exact fun i => h.mem_ready_take hj
  · apply nodup_ready_foldl_release hdependents (h.nodup.erase j)
    intro i hi hone hmem
    have hready := (h.ready i).mp (List.mem_of_mem_erase hmem)
    have hlt := h.bound i hready.1
    rw [h.missing i hlt, hready.2] at hone
    cases hone
  · intro i hi hnot
    rw [producersAmong_erase hwaiting]
    by_cases hij : i = j
    · rw [hij, hfree, Nat.zero_sub]
    · have hgone : i ∉ waiting := fun hmem =>
        hnot (h.waiting_nodup.mem_erase_iff.mpr ⟨hij, hmem⟩)
      rw [h.taken i hi hgone, Nat.zero_sub]

/-- The smallest ready position is the first waiting one that no waiting rule feeds. -/
theorem min?_ready (h : c.Counts ds waiting) :
    c.ready.min? = waiting.find? fun i => !waiting.any fun j => feeds ds j i := by
  have hfree : ∀ i, (!waiting.any fun j => feeds ds j i) = true ↔
      producersAmong ds waiting i = 0 := by
    intro i
    rw [producersAmong_eq_zero]
    simp
  cases hfind : waiting.find? fun i => !waiting.any fun j => feeds ds j i with
  | none =>
    rw [List.min?_eq_none_iff, List.eq_nil_iff_forall_not_mem]
    intro i hi
    obtain ⟨hwaiting, hzero⟩ := (h.ready i).mp hi
    exact List.find?_eq_none.mp hfind i hwaiting ((hfree i).mpr hzero)
  | some i =>
    obtain ⟨hi, before, after, hsplit, hbefore⟩ := List.find?_eq_some_iff_append.mp hfind
    have hascending := h.ascending
    rw [List.min?_eq_some_iff]
    constructor
    · exact (h.ready i).mpr ⟨List.mem_of_find?_eq_some hfind, (hfree i).mp hi⟩
    · intro j hj
      obtain ⟨hwaiting, hzero⟩ := (h.ready j).mp hj
      rw [hsplit] at hwaiting hascending
      rcases List.mem_append.mp hwaiting with hearlier | hwaiting
      · have hfed := hbefore j hearlier
        rw [(hfree j).mpr hzero] at hfed
        cases hfed
      · rcases List.mem_cons.mp hwaiting with rfl | hlater
        · exact Nat.le_refl _
        · have hrest := (List.pairwise_append.mp hascending).2.1
          exact Nat.le_of_lt ((List.pairwise_cons.mp hrest).1 j hlater)

/-- When no rule is ready, the waiting rules are those that miss a producer. -/
theorem waiting_eq (h : c.Counts ds waiting) (hready : c.ready = []) :
    waiting = (List.range ds.length).filter fun i => c.missing[i]?.any (0 < ·) := by
  have hsorted : ((List.range ds.length).filter fun i => c.missing[i]?.any (0 < ·)).Pairwise
      (· < ·) := List.pairwise_lt_range.filter _
  apply List.Perm.eq_of_pairwise _ h.ascending hsorted
  · rw [List.perm_ext_iff_of_nodup h.waiting_nodup (hsorted.imp Nat.ne_of_lt)]
    intro i
    rw [List.mem_filter, List.mem_range]
    constructor
    · intro hi
      have hlt := h.bound i hi
      refine ⟨hlt, ?_⟩
      rw [h.missing i hlt, Option.any_some, decide_eq_true_eq]
      apply Nat.pos_of_ne_zero
      intro hzero
      have hmem := (h.ready i).mpr ⟨hi, hzero⟩
      rw [hready] at hmem
      cases hmem
    · rintro ⟨hlt, hmissing⟩
      rw [h.missing i hlt, Option.any_some, decide_eq_true_eq] at hmissing
      by_contra hnot
      rw [h.taken i hlt hnot] at hmissing
      exact Nat.lt_irrefl 0 hmissing
  · intro a b _ _ hab hba
    exact absurd hba (Nat.lt_asymm hab)

end Counts

end Countdown

private theorem countDown_of_none (taken : List Nat) (h : c.ready.min? = none) :
    countDown ds taken c = (taken, c.missing) := by
  rw [countDown]
  split
  · rfl
  · rename_i j hj
    rw [h] at hj
    cases hj

private theorem countDown_of_some (taken : List Nat) (h : c.ready.min? = some j) :
    countDown ds taken c = countDown ds (taken ++ [j]) (c.take ds j) := by
  rw [countDown]
  split
  · rename_i hnone
    rw [h] at hnone
    cases hnone
  · rename_i i hi
    rw [h, Option.some.injEq] at hi
    rw [hi]

/-- Counting down takes the rules that the schedule takes. -/
theorem countDown_eq (h : c.Counts ds waiting) (taken : List Nat) :
    ∃ (stuck : List Nat) (last : Countdown),
      schedule ds taken waiting = ((countDown ds taken c).1, stuck) ∧
      (countDown ds taken c).2 = last.missing ∧ last.Counts ds stuck ∧ last.ready = [] := by
  induction hn : waiting.length using Nat.strongRecOn generalizing taken waiting c with
  | ind n ih =>
    have hfirst := h.min?_ready
    rw [schedule]
    split
    · rename_i hfind
      rw [hfind] at hfirst
      rw [countDown_of_none taken hfirst]
      exact ⟨waiting, c, rfl, rfl, h, List.min?_eq_none_iff.mp hfirst⟩
    · rename_i j hfind
      rw [hfind] at hfirst
      rw [countDown_of_some taken hfirst]
      have hj : j ∈ c.ready := List.min?_mem hfirst
      have hwaiting := ((h.ready j).mp hj).1
      have hpos := List.length_pos_of_mem hwaiting
      have hlen : (waiting.erase j).length < n := by
        rw [List.length_erase_of_mem hwaiting, hn]
        omega
      exact ih _ hlen (h.take hj) (taken ++ [j]) rfl

theorem topologicalOrder_eq {order stuck : List Nat}
    (h : schedule ds [] (List.range ds.length) = (order, stuck)) :
    topologicalOrder ds =
      if stuck = [] then .ok order
      else .error (.cycle (stuck.filterMap fun i => ds[i]?.map Descriptor.name)) := by
  obtain ⟨stuck', last, hschedule, hmissing, hcounts, hready⟩ :=
    countDown_eq (Countdown.counts_initial ds) []
  rw [h, Prod.mk.injEq] at hschedule
  obtain ⟨horder, rfl⟩ := hschedule
  obtain ⟨rest, hrest, hscheduled⟩ := schedule_spec h
  rw [List.nil_append] at hrest
  have hlength := hscheduled.perm.length_eq
  rw [List.length_append, List.length_range, ← hrest] at hlength
  have hleft := hcounts.waiting_eq hready
  rw [topologicalOrder]
  simp only [← horder, hmissing]
  rw [← hleft]
  by_cases hstuck : stuck = []
  · rw [if_pos hstuck, if_neg]
    rw [hstuck, List.length_nil] at hlength
    omega
  · have := List.length_pos_iff.mpr hstuck
    rw [if_neg hstuck, if_pos (by omega)]

end SlowRequest
