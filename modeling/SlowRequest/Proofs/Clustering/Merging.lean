import SlowRequest.Proofs.Clustering.Distances
namespace SlowRequest

theorem exists_left_of_forall₂ {α β : Type} {R : α → β → Prop} {xs : List α} {ys : List β}
    (h : List.Forall₂ R xs ys) {y : β} (hy : y ∈ ys) : ∃ x ∈ xs, R x y := by
  induction h with
  | nil => cases hy
  | cons hr _ ih =>
    rcases List.mem_cons.mp hy with rfl | hy
    · exact ⟨_, List.mem_cons_self, hr⟩
    · obtain ⟨x, hx, hxy⟩ := ih hy
      exact ⟨x, List.mem_cons_of_mem _ hx, hxy⟩

theorem exists_right_of_forall₂ {α β : Type} {R : α → β → Prop} {xs : List α} {ys : List β}
    (h : List.Forall₂ R xs ys) {x : α} (hx : x ∈ xs) : ∃ y ∈ ys, R x y :=
  exists_left_of_forall₂ h.flip hx

theorem disjoint_of_nodup_flatMap {α β : Type} {f : α → List β} {xs : List α}
    (h : (xs.flatMap f).Nodup) {a b : α} (ha : a ∈ xs) (hb : b ∈ xs) (hne : a ≠ b) :
    (f a).Disjoint (f b) := by
  have hpair : ∀ {x y}, [x, y].Sublist xs → (f x).Disjoint (f y) :=
    List.pairwise_iff_forall_sublist.mp (List.nodup_flatMap.mp h).2
  rcases sublist_or_sublist ha hb hne with hab | hba
  · exact hpair hab
  · exact fun x hxa hxb => hpair hba hxb hxa

namespace Part

open CallTree (Encloses)

variable {t : CallTree} {start : NodeId} {d : Nat}

structure Sound (t : CallTree) (start : NodeId) (p : Part) : Prop where
  leads : ∃ x rest, p.invocations = x :: rest ∧ t.Encloses p.context x
  below : t.Encloses start p.context
  lowest : ∀ b, (∀ x ∈ p.invocations, t.Encloses b x) → t.Encloses b p.context

def Spaced (t : CallTree) (parts : List Part) : Prop :=
  t.Spaced (parts.map fun p => p.context) (parts.map fun p => p.distance)

def Linked (t : CallTree) (d : Nat) : List Part → Prop
  | p :: q :: ps =>
    p.distance = some d ∧ t.MeetsAt p.context q.context d ∧ Linked t d (q :: ps)
  | _ => True

/-- `m` is what a round makes of the run `r`: the one part of it, or a part with all its calls
under the call `d` links above the context of the first part. -/
structure Joins (t : CallTree) (d : Nat) (r : List Part) (m : Part) : Prop where
  invocations : m.invocations = r.flatMap fun p => p.invocations
  context : r = [m] ∨
    ∃ p q ps, r = p :: q :: ps ∧ t.ancestor p.context d = .ok m.context

def Merges (t : CallTree) (walk : List (NodeId × Nat)) (parts merged : List Part) : Prop :=
  ∃ d, closestDistance? (assignDistances walk parts) = some d ∧
    List.Forall₂ (Joins t d) (runs d (assignDistances walk parts)) merged

theorem Spaced.tail {p : Part} {ps : List Part} (h : Spaced t (p :: ps)) : Spaced t ps := by
  cases ps with
  | nil => exact rfl
  | cons q ps => exact h.2

theorem Spaced.meetsAt {p q : Part} {ps : List Part} (h : Spaced t (p :: q :: ps))
    (hd : p.distance = some d) : t.MeetsAt p.context q.context d := h.1 d hd

theorem Spaced.exists_next {p : Part} {ps : List Part} (h : Spaced t (p :: ps))
    (hd : p.distance = some d) : ∃ q qs, ps = q :: qs := by
  cases ps with
  | nil =>
    have hnone : [p.distance] = [none] := h
    rw [hd] at hnone
    cases hnone
  | cons q qs => exact ⟨q, qs, rfl⟩

theorem map_assignDistances {α : Type} (f : Part → α) (hf : ∀ p d, f { p with distance := d } = f p)
    (walk : List (NodeId × Nat)) (parts : List Part) :
    (assignDistances walk parts).map f = parts.map f := by
  have hlen := length_distances walk (parts.map fun p => p.context)
  rw [List.length_map] at hlen
  unfold assignDistances
  rw [List.map_zipWith]
  simp only [hf]
  generalize distances walk (parts.map fun p => p.context) = ds at hlen
  induction parts generalizing ds with
  | nil => simp
  | cons p ps ih =>
    cases ds with
    | nil => cases hlen
    | cons d ds =>
      rw [List.zipWith_cons_cons, List.map_cons, ih ds (by simpa using hlen)]

theorem map_distance_assignDistances (walk : List (NodeId × Nat)) (parts : List Part) :
    (assignDistances walk parts).map (fun p => p.distance) =
      distances walk (parts.map fun p => p.context) := by
  have hlen := length_distances walk (parts.map fun p => p.context)
  rw [List.length_map] at hlen
  unfold assignDistances
  rw [List.map_zipWith]
  generalize distances walk (parts.map fun p => p.context) = ds at hlen
  induction parts generalizing ds with
  | nil =>
    rw [List.eq_nil_of_length_eq_zero hlen]
    rfl
  | cons p ps ih =>
    cases ds with
    | nil => cases hlen
    | cons d ds => rw [List.zipWith_cons_cons, ih ds (by simpa using hlen)]

theorem spaced_assignDistances (t : CallTree) (start : NodeId) (parts : List Part) :
    Spaced t (assignDistances (t.depthFirst start) parts) := by
  rw [Spaced, map_distance_assignDistances,
    map_assignDistances (fun p => p.context) (fun _ _ => rfl)]
  exact CallTree.distances_spaced (CallTree.isChain_depthFirst t start)
    (CallTree.pairwise_depthFirst t start)

theorem exists_of_mem_assignDistances {walk : List (NodeId × Nat)} {parts : List Part} {q : Part}
    (h : q ∈ assignDistances walk parts) : ∃ p ∈ parts, q.toCluster = p.toCluster := by
  have hmem : q.toCluster ∈ (assignDistances walk parts).map fun p => p.toCluster :=
    List.mem_map_of_mem h
  rw [map_assignDistances (fun p => p.toCluster) fun _ _ => rfl] at hmem
  obtain ⟨p, hp, heq⟩ := List.mem_map.mp hmem
  exact ⟨p, hp, heq.symm⟩

private theorem exists_mem_assignDistances (walk : List (NodeId × Nat)) {parts : List Part}
    {p : Part} (h : p ∈ parts) : ∃ q ∈ assignDistances walk parts, q.toCluster = p.toCluster := by
  have hmem : p.toCluster ∈ parts.map fun p => p.toCluster := List.mem_map_of_mem h
  rw [← map_assignDistances (fun p => p.toCluster) fun _ _ => rfl] at hmem
  exact List.mem_map.mp hmem

theorem Sound.of_toCluster_eq {p q : Part} (h : Sound t start p)
    (heq : q.toCluster = p.toCluster) : Sound t start q := by
  obtain ⟨leads, below, lowest⟩ := h
  rw [← heq] at leads below lowest
  exact ⟨leads, below, lowest⟩

private theorem closestDistance?_le {parts : List Part} (h : closestDistance? parts = some d)
    {p : Part} (hp : p ∈ parts) {n : Nat} (hn : p.distance = some n) : d ≤ n := by
  obtain ⟨-, hle⟩ := List.min?_eq_some_iff.mp h
  exact hle n (List.mem_filterMap.mpr ⟨p, hp, hn⟩)

private theorem exists_closest {parts : List Part} (h : closestDistance? parts = some d) :
    ∃ p ∈ parts, p.distance = some d := by
  obtain ⟨hmem, -⟩ := List.min?_eq_some_iff.mp h
  exact List.mem_filterMap.mp hmem

theorem closestDistance?_eq_none {parts : List Part} :
    closestDistance? parts = none ↔ ∀ p ∈ parts, p.distance = none := by
  rw [closestDistance?, List.min?_eq_none_iff, List.filterMap_eq_nil_iff]

theorem flatten_runs (d : Nat) (parts : List Part) : (runs d parts).flatten = parts := by
  induction parts with
  | nil => rfl
  | cons p ps ih =>
    unfold runs
    split
    · rw [List.flatten_cons, ih]
      rfl
    · split
      · rename_i hnil
        rw [hnil] at ih
        rw [← ih]
        rfl
      · rename_i r rs hcons
        rw [hcons] at ih
        rw [← ih]
        rfl

private theorem runs_cons (d : Nat) (p : Part) (ps : List Part) :
    ∃ r rs, runs d (p :: ps) = (p :: r) :: rs := by
  unfold runs
  split
  · exact ⟨_, _, rfl⟩
  · split
    · exact ⟨_, _, rfl⟩
    · exact ⟨_, _, rfl⟩

private theorem closes_iff {p : Part} : p.closes d = true ↔ ∀ n, p.distance = some n → d < n := by
  unfold closes
  cases p.distance <;> simp

/-- A run ends only with a part that closes it, so its neighbours are the closest ones. -/
theorem runs_linked {parts : List Part} (hs : Spaced t parts)
    (hle : ∀ p ∈ parts, ∀ n, p.distance = some n → d ≤ n) :
    ∀ r ∈ runs d parts, r ≠ [] ∧ Linked t d r := by
  induction parts with
  | nil =>
    intro r hr
    cases hr
  | cons p ps ih =>
    have ih := ih hs.tail fun q hq => hle q (List.mem_cons_of_mem _ hq)
    intro r hr
    unfold runs at hr
    split at hr
    · rcases List.mem_cons.mp hr with rfl | hr
      · exact ⟨List.cons_ne_nil _ _, trivial⟩
      · exact ih r hr
    · rename_i hopen
      obtain ⟨n, hn, hnd⟩ : ∃ n, p.distance = some n ∧ n ≤ d := by
        rw [closes_iff] at hopen
        push Not at hopen
        exact hopen
      have hnd : n = d := Nat.le_antisymm hnd (hle p List.mem_cons_self n hn)
      rw [hnd] at hn
      obtain ⟨q, qs, rfl⟩ := hs.exists_next hn
      obtain ⟨r', rs, hruns⟩ := runs_cons d q qs
      rw [hruns] at hr ih
      rcases List.mem_cons.mp hr with rfl | hr
      · refine ⟨List.cons_ne_nil _ _, hn, hs.meetsAt hn, ?_⟩
        exact (ih _ List.mem_cons_self).2
      · exact ih r (List.mem_cons_of_mem _ hr)

theorem exists_run_of_mem {parts : List Part} (hs : Spaced t parts) {p : Part} (hp : p ∈ parts)
    (hd : p.distance = some d) :
    ∃ r ∈ runs d parts, ∃ s q u, r = s ++ p :: q :: u ∧ t.MeetsAt p.context q.context d := by
  induction parts with
  | nil => cases hp
  | cons c ps ih =>
    rcases List.mem_cons.mp hp with rfl | hp
    · obtain ⟨q, qs, rfl⟩ := hs.exists_next hd
      obtain ⟨r, rs, hruns⟩ := runs_cons d q qs
      have hopen : ¬ p.closes d = true := by
        rw [closes_iff]
        intro h
        exact Nat.lt_irrefl _ (h d hd)
      refine ⟨p :: q :: r, ?_, [], q, r, rfl, hs.meetsAt hd⟩
      rw [runs, if_neg hopen, hruns]
      exact List.mem_cons_self
    · obtain ⟨r, hr, s, q, u, rfl, hmeet⟩ := ih hs.tail hp
      unfold runs
      split
      · exact ⟨_, List.mem_cons_of_mem _ hr, s, q, u, rfl, hmeet⟩
      · split
        · rename_i hnil
          rw [hnil] at hr
          cases hr
        · rename_i r rs hcons
          rw [hcons] at hr
          rcases List.mem_cons.mp hr with heq | hr
          · exact ⟨_, List.mem_cons_self, c :: s, q, u, by rw [← heq]; rfl, hmeet⟩
          · exact ⟨_, List.mem_cons_of_mem _ hr, s, q, u, rfl, hmeet⟩

private theorem length_runs_le (d : Nat) (parts : List Part) :
    (runs d parts).length ≤ parts.length := by
  induction parts with
  | nil => exact Nat.le_refl _
  | cons p ps ih =>
    unfold runs
    split
    · simpa using ih
    · split
      · simp
      · rename_i r rs hcons
        rw [hcons] at ih
        simp only [List.length_cons] at ih ⊢
        omega

private theorem length_runs_lt {parts : List Part} (hs : Spaced t parts) {p : Part} (hp : p ∈ parts)
    (hd : p.distance = some d) : (runs d parts).length < parts.length := by
  induction parts with
  | nil => cases hp
  | cons c ps ih =>
    unfold runs
    split
    · rename_i hcloses
      rcases List.mem_cons.mp hp with rfl | hp
      · exact absurd (closes_iff.mp hcloses d hd) (Nat.lt_irrefl _)
      · simpa using ih hs.tail hp
    · rename_i hopen
      rw [closes_iff] at hopen
      push Not at hopen
      obtain ⟨n, hn, -⟩ := hopen
      obtain ⟨q, qs, rfl⟩ := hs.exists_next hn
      obtain ⟨r, rs, hruns⟩ := runs_cons d q qs
      have hle := length_runs_le d (q :: qs)
      rw [hruns] at hle ⊢
      simp only [List.length_cons] at hle ⊢
      omega

/-- A linked run is joined: the climb from its first part does not leave the tree. -/
theorem join_of_linked {r : List Part} (hne : r ≠ []) (hr : Linked t d r) :
    ∃ m, join t r = .ok [m] ∧ Joins t d r m := by
  match r with
  | [p] => exact ⟨p, rfl, by simp, .inl rfl⟩
  | p :: q :: ps =>
    obtain ⟨hd, ⟨a, ha, -⟩, -⟩ := hr
    simp only [join, hd, Option.getD_some, ha]
    exact ⟨_, rfl, rfl, .inr ⟨p, q, ps, rfl, ha⟩⟩

private theorem joinAll_of_linked {rs : List (List Part)} (h : ∀ r ∈ rs, r ≠ [] ∧ Linked t d r) :
    ∃ merged, joinAll t rs = .ok merged ∧ List.Forall₂ (Joins t d) rs merged := by
  induction rs with
  | nil => exact ⟨[], rfl, .nil⟩
  | cons r rs ih =>
    obtain ⟨hne, hlinked⟩ := h r List.mem_cons_self
    obtain ⟨m, hm, hjoins⟩ := join_of_linked hne hlinked
    obtain ⟨merged, hmerged, hall⟩ := ih fun q hq => h q (List.mem_cons_of_mem _ hq)
    refine ⟨m :: merged, ?_, .cons hjoins hall⟩
    rw [joinAll, hm, hmerged]
    rfl

theorem mergeClosest_eq (t : CallTree) (start : NodeId) (parts : List Part) :
    (mergeClosest t (t.depthFirst start) parts = .ok none ∧
        closestDistance? (assignDistances (t.depthFirst start) parts) = none) ∨
      ∃ merged, mergeClosest t (t.depthFirst start) parts = .ok (some merged) ∧
        Merges t (t.depthFirst start) parts merged := by
  cases hd : closestDistance? (assignDistances (t.depthFirst start) parts) with
  | none =>
    left
    simp only [mergeClosest, hd, and_self]
  | some d =>
    have hlinked := runs_linked (spaced_assignDistances t start parts)
      fun p hp n hn => closestDistance?_le hd hp hn
    obtain ⟨merged, hmerged, hall⟩ := joinAll_of_linked hlinked
    refine .inr ⟨merged, ?_, d, hd, hall⟩
    simp only [mergeClosest, hd, hmerged]
    rfl

theorem Joins.flatMap_invocations {rs : List (List Part)} {merged : List Part}
    (h : List.Forall₂ (Joins t d) rs merged) :
    (merged.flatMap fun p => p.invocations) = rs.flatten.flatMap fun p => p.invocations := by
  induction h with
  | nil => rfl
  | cons hjoins _ ih =>
    rw [List.flatMap_cons, List.flatten_cons, List.flatMap_append, ih, hjoins.invocations]

private theorem flatMap_assignDistances (walk : List (NodeId × Nat)) (parts : List Part) :
    ((assignDistances walk parts).flatMap fun p => p.invocations) =
      parts.flatMap fun p => p.invocations := by
  rw [List.flatMap_def, map_assignDistances (fun p => p.invocations) fun _ _ => rfl,
    ← List.flatMap_def]

variable {parts merged : List Part}

theorem Merges.flatMap_invocations (h : Merges t (t.depthFirst start) parts merged) :
    (merged.flatMap fun p => p.invocations) = parts.flatMap fun p => p.invocations := by
  obtain ⟨d, -, hall⟩ := h
  rw [Joins.flatMap_invocations hall, flatten_runs, flatMap_assignDistances]

theorem length_assignDistances (walk : List (NodeId × Nat)) (parts : List Part) :
    (assignDistances walk parts).length = parts.length := by
  rw [assignDistances, List.length_zipWith, length_distances, List.length_map, Nat.min_self]

theorem Merges.length_lt (h : Merges t (t.depthFirst start) parts merged) :
    merged.length < parts.length := by
  obtain ⟨d, hd, hall⟩ := h
  obtain ⟨p, hp, hpd⟩ := exists_closest hd
  rw [← hall.length_eq, ← length_assignDistances (t.depthFirst start)]
  exact length_runs_lt (spaced_assignDistances t start parts) hp hpd

theorem Merges.ne_nil (h : Merges t (t.depthFirst start) parts merged) : merged ≠ [] := by
  obtain ⟨d, hd, hall⟩ := h
  obtain ⟨q, hq, -⟩ := exists_closest hd
  rw [← flatten_runs d (assignDistances _ parts)] at hq
  obtain ⟨r, hr, -⟩ := List.mem_flatten.mp hq
  obtain ⟨m, hm, -⟩ := exists_right_of_forall₂ hall hr
  exact List.ne_nil_of_mem hm

theorem Merges.exists_run (h : Merges t (t.depthFirst start) parts merged) {m : Part}
    (hm : m ∈ merged) :
    ∃ d r, closestDistance? (assignDistances (t.depthFirst start) parts) = some d ∧
      Linked t d r ∧ Joins t d r m ∧
        ∀ q ∈ r, q ∈ assignDistances (t.depthFirst start) parts := by
  obtain ⟨d, hd, hall⟩ := h
  obtain ⟨r, hr, hjoins⟩ := exists_left_of_forall₂ hall hm
  have hlinked := runs_linked (spaced_assignDistances t start parts)
    fun p hp n hn => closestDistance?_le hd hp hn
  refine ⟨d, r, hd, (hlinked r hr).2, hjoins, ?_⟩
  intro q hq
  rw [← flatten_runs d (assignDistances (t.depthFirst start) parts)]
  exact List.mem_flatten.mpr ⟨r, hr, hq⟩

theorem Merges.exists_into (h : Merges t (t.depthFirst start) parts merged) {q : Part}
    (hq : q ∈ parts) : ∃ m ∈ merged, q.invocations ⊆ m.invocations := by
  obtain ⟨d, -, hall⟩ := h
  obtain ⟨q', hq', heq⟩ := exists_mem_assignDistances (t.depthFirst start) hq
  rw [← flatten_runs d (assignDistances _ parts)] at hq'
  obtain ⟨r, hr, hqr⟩ := List.mem_flatten.mp hq'
  obtain ⟨m, hm, hjoins⟩ := exists_right_of_forall₂ hall hr
  refine ⟨m, hm, ?_⟩
  rw [← heq, hjoins.invocations]
  exact fun x hx => List.mem_flatMap.mpr ⟨q', hqr, hx⟩

theorem Joins.sound {r : List Part} {m : Part} (h : Joins t d r m) (hlinked : Linked t d r)
    (hr : ∀ q ∈ r, Sound t start q) : Sound t start m := by
  rcases h.context with rfl | ⟨p, q, ps, rfl, hm⟩
  · exact hr m List.mem_cons_self
  · obtain ⟨-, ⟨a, ha, hlca⟩, -⟩ := hlinked
    rw [hm] at ha
    cases ha
    have hp := hr p (by simp)
    have hq := hr q (by simp)
    obtain ⟨x, rest, hx, hpx⟩ := hp.leads
    have hfirst : m.invocations = x :: (rest ++ (q :: ps).flatMap fun p => p.invocations) := by
      rw [h.invocations, List.flatMap_cons, hx, List.cons_append]
    refine ⟨⟨x, _, hfirst, Encloses.trans ⟨d, hm⟩ hpx⟩, ?_, ?_⟩
    · apply hlca.lowest
      simp only [List.mem_cons, List.not_mem_nil, or_false]
      rintro y (rfl | rfl)
      · exact hp.below
      · exact hq.below
    · intro b hb
      rw [h.invocations] at hb
      apply hlca.lowest
      simp only [List.mem_cons, List.not_mem_nil, or_false]
      rintro y (rfl | rfl)
      · exact hp.lowest b fun x hx => hb x (List.mem_flatMap.mpr ⟨p, by simp, hx⟩)
      · exact hq.lowest b fun x hx => hb x (List.mem_flatMap.mpr ⟨q, by simp, hx⟩)

theorem Merges.sound (h : Merges t (t.depthFirst start) parts merged)
    (hs : ∀ p ∈ parts, Sound t start p) : ∀ m ∈ merged, Sound t start m := by
  intro m hm
  obtain ⟨d, r, -, hlinked, hjoins, hr⟩ := h.exists_run hm
  apply hjoins.sound hlinked
  intro q hq
  obtain ⟨p, hp, heq⟩ := exists_of_mem_assignDistances (hr q hq)
  exact (hs p hp).of_toCluster_eq heq

end Part
end SlowRequest
