import SlowRequest.Proofs.CallTree.Timing
import SlowRequest.Proofs.Clustering.Merging
namespace SlowRequest

namespace Clustering

open CallTree (Encloses)

/-- The lists of parts that at most so many rounds lead through, `parts` being the first one. -/
def rounds (t : CallTree) (walk : List (NodeId × Nat)) (significance : Float) :
    Nat → List Part → List (List Part)
  | 0, parts => [parts]
  | left + 1, parts =>
    match significant? significance parts, Part.mergeClosest t walk parts with
    | none, .ok (some merged) => parts :: rounds t walk significance left merged
    | _, _ => [parts]

def opening (t : CallTree) (ids : List NodeId) : List Part :=
  ids.map fun id => .single id (t.exclusiveTime id)

/-- The exclusive time that makes a part of the calls significant. -/
def significance (th : Thresholds) (t : CallTree) (ids : List NodeId) : Float :=
  th.proportion * (ids.map t.exclusiveTime).foldl (· + ·) 0.0

/-- The lists of parts that the clustering of an operation leads through. -/
def history (th : Thresholds) (t : CallTree) (context : NodeId) (operation : Aggregate) :
    List (List Part) :=
  rounds t (t.depthFirst context) (significance th t operation.members.toList) th.maxMergeRounds
    (opening t operation.members.toList)

/-- With at most `n` rounds, `parts` lead through `lists` to the part `p`. -/
inductive Course (t : CallTree) (start : NodeId) (sig : Float) :
    Nat → List Part → List (List Part) → Part → Prop
  | stop {n : Nat} {parts : List Part} {p : Part} (mem : p ∈ parts)
      (why : sig < p.exclusiveTime ∨ significant? sig parts = none ∧
        (n = 0 ∨ Part.closestDistance?
          (Part.assignDistances (t.depthFirst start) parts) = none)) :
      Course t start sig n parts [parts] p
  | merge {n : Nat} {parts merged : List Part} {lists : List (List Part)} {p : Part}
      (insignificant : significant? sig parts = none)
      (merges : Part.Merges t (t.depthFirst start) parts merged)
      (rest : Course t start sig n merged lists p) :
      Course t start sig (n + 1) parts (parts :: lists) p

variable {t : CallTree} {start : NodeId} {sig : Float} {n : Nat} {parts : List Part}
  {lists : List (List Part)} {p : Part}

theorem rounds_eq_cons (t : CallTree) (walk : List (NodeId × Nat)) (sig : Float) (n : Nat)
    (parts : List Part) : ∃ rest, rounds t walk sig n parts = parts :: rest := by
  cases n with
  | zero => exact ⟨_, rfl⟩
  | succ n =>
    rw [rounds]
    split
    · exact ⟨_, rfl⟩
    · exact ⟨_, rfl⟩

theorem significant?_eq_none :
    significant? sig parts = none ↔ ∀ p ∈ parts, ¬ sig < p.exclusiveTime := by
  rw [significant?, List.find?_eq_none]
  simp

private theorem longest_mem (first : Part) (parts : List Part) :
    Part.longest first parts = first ∨ Part.longest first parts ∈ parts := by
  unfold Part.longest
  induction parts generalizing first with
  | nil => exact .inl rfl
  | cons q parts ih =>
    rw [List.foldl_cons]
    rcases ih (if first.exclusiveTime < q.exclusiveTime then q else first) with h | h
    · rw [h]
      split
      · exact .inr List.mem_cons_self
      · exact .inl rfl
    · exact .inr (List.mem_cons_of_mem _ h)

private theorem choose_eq (sig : Float) {parts : List Part} (hne : parts ≠ []) :
    ∃ p ∈ parts, ∃ how, choose sig parts = .ok (p, how) ∧
      (sig < p.exclusiveTime ∨ significant? sig parts = none) := by
  cases hs : significant? sig parts with
  | some p =>
    refine ⟨p, List.mem_of_find?_eq_some hs, .afterRounds, ?_, .inl ?_⟩
    · simp only [choose, hs]
    · simpa using List.find?_some hs
  | none =>
    cases parts with
    | nil => exact absurd rfl hne
    | cons q qs =>
      refine ⟨Part.longest q (q :: qs), ?_, .longest (q :: qs).length, ?_, .inr rfl⟩
      swap
      · simp only [choose, hs]
      rcases longest_mem q (q :: qs) with h | h
      · rw [h]
        exact List.mem_cons_self
      · exact h

private theorem settle_course (t : CallTree) (start : NodeId) (sig : Float) (n k : Nat)
    {parts : List Part} (hne : parts ≠ []) :
    ∃ p how, settle t (t.depthFirst start) sig n k parts = .ok (p, how) ∧
      Course t start sig n parts (rounds t (t.depthFirst start) sig n parts) p := by
  induction n generalizing k parts with
  | zero =>
    obtain ⟨p, hp, how, heq, hwhy⟩ := choose_eq sig hne
    exact ⟨p, how, heq, .stop hp (hwhy.imp_right fun h => ⟨h, .inl rfl⟩)⟩
  | succ n ih =>
    cases hs : significant? sig parts with
    | some p =>
      refine ⟨p, .significant k parts.length, by simp only [settle, hs], ?_⟩
      rw [rounds, hs]
      exact .stop (List.mem_of_find?_eq_some hs) (.inl (by simpa using List.find?_some hs))
    | none =>
      rcases Part.mergeClosest_eq t start parts with ⟨hm, hnone⟩ | ⟨merged, hm, hmerges⟩
      · obtain ⟨p, hp, how, heq, hwhy⟩ := choose_eq sig hne
        refine ⟨p, how, by simp only [settle, hs, hm, heq], ?_⟩
        rw [rounds, hs, hm]
        exact .stop hp (hwhy.imp_right fun h => ⟨h, .inr hnone⟩)
      · obtain ⟨p, how, heq, hcourse⟩ := ih (k + 1) hmerges.ne_nil
        refine ⟨p, how, by simp only [settle, hs, hm, heq], ?_⟩
        rw [rounds, hs, hm]
        exact .merge hs hmerges hcourse

theorem Course.ne_nil (h : Course t start sig n parts lists p) : lists ≠ [] := by
  cases h <;> exact List.cons_ne_nil _ _

private theorem Course.parts_ne_nil (h : Course t start sig n parts lists p) : parts ≠ [] := by
  cases h with
  | stop mem _ => exact List.ne_nil_of_mem mem
  | merge _ merges _ =>
    have hlt := merges.length_lt
    exact List.ne_nil_of_length_pos (by omega)

private theorem Course.eq_of_singleton {q : Part} (h : Course t start sig n [q] lists p) :
    p = q := by
  cases h with
  | stop mem _ => exact List.mem_singleton.mp mem
  | merge _ merges rest =>
    have hlt := merges.length_lt
    have hpos := List.length_pos_of_ne_nil rest.parts_ne_nil
    rw [List.length_singleton] at hlt
    omega

theorem Course.sound (h : Course t start sig n parts lists p)
    (hs : ∀ q ∈ parts, Part.Sound t start q) : Part.Sound t start p := by
  induction h with
  | stop mem _ => exact hs _ mem
  | merge _ merges _ ih => exact ih (merges.sound hs)

theorem Course.subset (h : Course t start sig n parts lists p) :
    p.invocations ⊆ parts.flatMap fun q => q.invocations := by
  induction h with
  | stop mem _ => exact fun x hx => List.mem_flatMap.mpr ⟨_, mem, hx⟩
  | merge _ merges _ ih =>
    rw [merges.flatMap_invocations] at ih
    exact ih

theorem singles_eq {ids : List NodeId} (h : ∀ id ∈ ids, t.Timed id) :
    singles t ids = .ok (opening t ids) := by
  induction ids with
  | nil => rfl
  | cons id ids ih =>
    obtain ⟨n, hn, htimed⟩ := (h id List.mem_cons_self).exists
    have hrest := ih fun x hx => h x (List.mem_cons_of_mem _ hx)
    have hcons : opening t (id :: ids) = .single id n.exclusiveTime :: opening t ids := by
      rw [← CallTree.exclusiveTime_of_get? hn]
      rfl
    rw [singles, CallTree.diagnosedNode_of_get? hn, hrest, hcons]
    simp only [bind, Except.bind, htimed]
    rfl

private theorem foldl_opening (t : CallTree) (ids : List NodeId) :
    (opening t ids).foldl (fun sum p => sum + p.exclusiveTime) 0.0 =
      (ids.map t.exclusiveTime).foldl (· + ·) 0.0 := by
  rw [opening, List.foldl_map, List.foldl_map]
  rfl

theorem flatMap_opening (t : CallTree) (ids : List NodeId) :
    ((opening t ids).flatMap fun p => p.invocations) = ids := by
  rw [opening, List.flatMap_map]
  exact List.flatMap_singleton' ids

theorem sound_opening_of_encloses {ids : List NodeId} (h : ∀ id ∈ ids, t.Encloses start id) :
    ∀ p ∈ opening t ids, Part.Sound t start p := by
  intro p hp
  obtain ⟨id, hid, rfl⟩ := List.mem_map.mp hp
  exact {
    leads := ⟨id, [], rfl, Encloses.refl id⟩
    below := h id hid
    lowest := fun b hb => hb id (List.mem_singleton_self id) }

theorem sound_opening {ids : List NodeId}
    (h : ids.Sublist ((t.depthFirst start).map Prod.fst)) :
    ∀ p ∈ opening t ids, Part.Sound t start p :=
  sound_opening_of_encloses fun _ hid => (CallTree.mem_map_depthFirst.mp (h.subset hid)).2

theorem run_course (th : Thresholds) (t : CallTree) (start : NodeId) {operation : Aggregate}
    (hne : operation.members.toList ≠ []) (htimed : ∀ id ∈ operation.members.toList, t.Timed id) :
    ∃ p how, run th t start operation = .ok (p, how) ∧
      Course t start (significance th t operation.members.toList) th.maxMergeRounds
        (opening t operation.members.toList) (history th t start operation) p := by
  have hopen : opening t operation.members.toList ≠ [] := by
    intro h
    apply hne
    rw [← flatMap_opening t operation.members.toList, h]
    rfl
  obtain ⟨p, how, heq, hcourse⟩ := settle_course t start
    (significance th t operation.members.toList) th.maxMergeRounds 0 hopen
  rw [run, singles_eq htimed]
  simp only [bind, Except.bind]
  split
  · rename_i h
    exact absurd h hopen
  · rename_i q h
    refine ⟨q, .alone, rfl, ?_⟩
    have hpq : p = q := by
      rw [h] at hcourse
      exact hcourse.eq_of_singleton
    rw [← hpq]
    exact hcourse
  · refine ⟨p, how, ?_, hcourse⟩
    rw [foldl_opening]
    exact heq

end Clustering
end SlowRequest
