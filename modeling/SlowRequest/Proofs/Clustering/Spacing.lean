import SlowRequest.Proofs.Clustering.Context
/-! # Parts in the order of a walk -/
namespace SlowRequest

namespace CallTree

variable {t : CallTree} {x y : NodeId} {m n : Nat}

theorem MeetsAt.unique (hm : t.MeetsAt x y m) (hn : t.MeetsAt x y n) : m = n := by
  obtain ⟨a, ha, hlca⟩ := hm
  obtain ⟨b, hb, hlcb⟩ := hn
  rw [hlca.unique hlcb] at ha
  exact ancestor_injective ha hb

theorem meetsAt_zero_iff : t.MeetsAt x y 0 ↔ t.Encloses x y := by
  constructor
  · rintro ⟨a, ha, hlca⟩
    cases ha
    exact hlca.common y (by simp)
  · intro h
    refine ⟨x, rfl, ?_, fun b hb => hb x (by simp)⟩
    intro z hz
    rcases List.mem_cons.mp hz with rfl | hz
    · exact Encloses.refl z
    · rw [List.mem_singleton.mp hz]
      exact h

theorem Spaced.meetsAt {xs : List NodeId} {ds : List (Option Nat)} {i : Nat} (h : t.Spaced xs ds)
    (hx : xs[i]? = some x) (hy : xs[i + 1]? = some y) (hn : ds[i]? = some (some n)) :
    t.MeetsAt x y n := by
  match xs, ds, i with
  | a :: b :: xs, d :: ds, 0 =>
    cases hx
    cases hy
    exact h.1 n (Option.some.inj hn)
  | a :: b :: xs, d :: ds, i + 1 => exact Spaced.meetsAt h.2 hx hy hn
  | [a], ds, i => simp at hy
  | [], ds, i => simp at hx

end CallTree

namespace Part

variable {walk : List (NodeId × Nat)} {contexts : List NodeId}

private theorem distancesFrom_of_sublist (depth : Nat) (least : Option Nat)
    (h : contexts.Sublist (walk.map Prod.fst)) :
    ∃ ds : List Nat, distancesFrom walk depth least contexts = ds.map some ++ [none] := by
  induction walk generalizing depth least contexts with
  | nil =>
    rw [List.map_nil, List.sublist_nil] at h
    rw [h]
    exact ⟨[], rfl⟩
  | cons v walk ih =>
    cases contexts with
    | nil => exact ⟨[], rfl⟩
    | cons y contexts =>
      rw [List.map_cons] at h
      simp only [distancesFrom]
      split
      · rename_i hv
        rw [hv, List.cons_sublist_cons] at h
        obtain ⟨ds, hds⟩ := ih v.2 none h
        exact ⟨_ :: ds, by rw [hds]; rfl⟩
      · rename_i hv
        cases h with
        | cons _ h => exact ih _ _ h
        | cons_cons _ h => exact absurd rfl hv

private theorem distances_of_sublist {x : NodeId}
    (h : (x :: contexts).Sublist (walk.map Prod.fst)) :
    ∃ ds : List Nat, distances walk (x :: contexts) = ds.map some ++ [none] := by
  induction walk with
  | nil => cases h
  | cons v walk ih =>
    rw [List.map_cons] at h
    simp only [distances]
    split
    · rename_i hv
      rw [hv, List.cons_sublist_cons] at h
      exact distancesFrom_of_sublist _ _ h
    · rename_i hv
      cases h with
      | cons _ h => exact ih h
      | cons_cons _ h => exact absurd rfl hv

private theorem getLast?_distances (hne : contexts ≠ [])
    (h : contexts.Sublist (walk.map Prod.fst)) :
    (distances walk contexts).getLast? = some none := by
  obtain ⟨x, rest, rfl⟩ := List.exists_cons_of_ne_nil hne
  obtain ⟨ds, hds⟩ := distances_of_sublist h
  rw [hds, List.getLast?_concat]

private theorem exists_distance {t : CallTree} {start x y : NodeId} {i : Nat}
    (h : contexts.Sublist ((t.depthFirst start).map Prod.fst)) (hx : contexts[i]? = some x)
    (hy : contexts[i + 1]? = some y) :
    ∃ d, (distances (t.depthFirst start) contexts)[i]? = some (some d) ∧ t.MeetsAt x y d := by
  obtain ⟨first, rest, rfl⟩ := List.exists_cons_of_ne_nil (List.ne_nil_of_mem
    (List.mem_of_getElem? hx))
  obtain ⟨ds, hds⟩ := distances_of_sublist h
  have hspaced : t.Spaced (first :: rest) (distances (t.depthFirst start) (first :: rest)) :=
    CallTree.distances_spaced (CallTree.isChain_depthFirst t start)
      (CallTree.pairwise_depthFirst t start)
  have hlength := length_distances (t.depthFirst start) (first :: rest)
  rw [hds] at hspaced hlength ⊢
  have hi : i < ds.length := by
    obtain ⟨hlt, -⟩ := List.getElem?_eq_some_iff.mp hy
    rw [List.length_append, List.length_map, List.length_singleton] at hlength
    omega
  have hd : (ds.map some ++ [none])[i]? = some (some ds[i]) := by
    rw [List.getElem?_append_left (by rwa [List.length_map]), List.getElem?_map,
      List.getElem?_eq_getElem hi]
    rfl
  exact ⟨ds[i], hd, hspaced.meetsAt hx hy hd⟩

private theorem getElem?_assignDistances (walk : List (NodeId × Nat)) (parts : List Part)
    (i : Nat) :
    (assignDistances walk parts)[i]? =
      (parts[i]?).bind fun p =>
        ((distances walk (parts.map fun p => p.context))[i]?).map fun d =>
          { p with distance := d } := by
  rw [assignDistances, List.getElem?_zipWith]
  cases parts[i]? with
  | none => rfl
  | some p =>
    cases (distances walk (parts.map fun p => p.context))[i]? <;> rfl

/-- Parts whose contexts the walk meets in their order keep all but their distances. The last one
has none. Each other one has the number of links at which its context and the next one meet, which
is zero exactly if its own context encloses the next one. -/
theorem assignDistances_meets (t : CallTree) (start : NodeId) (parts : List Part)
    (horder : (parts.map fun p => p.context).Sublist ((t.depthFirst start).map Prod.fst)) :
    (assignDistances (t.depthFirst start) parts).length = parts.length ∧
      (∀ i p q, parts[i]? = some p → parts[i + 1]? = some q →
        ∃ d, (assignDistances (t.depthFirst start) parts)[i]? =
            some { p with distance := some d } ∧
          (∀ n, t.MeetsAt p.context q.context n ↔ n = d) ∧
          (d = 0 ↔ t.Encloses p.context q.context)) ∧
      ∀ p, parts.getLast? = some p →
        (assignDistances (t.depthFirst start) parts).getLast? =
          some { p with distance := none } := by
  have hlength := length_assignDistances (t.depthFirst start) parts
  refine ⟨hlength, ?_, ?_⟩
  · intro i p q hp hq
    obtain ⟨d, hd, hmeets⟩ := exists_distance (i := i) (x := p.context) (y := q.context) horder
      (by rw [List.getElem?_map, hp]; rfl) (by rw [List.getElem?_map, hq]; rfl)
    refine ⟨d, ?_, fun n => ⟨fun hn => hn.unique hmeets, fun hn => hn ▸ hmeets⟩, ?_⟩
    · rw [getElem?_assignDistances, hp, Option.bind_some, hd]
      rfl
    · rw [← CallTree.meetsAt_zero_iff]
      exact ⟨fun hzero => hzero ▸ hmeets, fun hzero => hmeets.unique hzero⟩
  · intro p hp
    have hne : (parts.map fun p => p.context) ≠ [] := by
      rintro hnil
      rw [List.map_eq_nil_iff.mp hnil] at hp
      cases hp
    have hd := getLast?_distances hne horder
    rw [List.getLast?_eq_getElem?] at hp hd ⊢
    rw [length_distances, List.length_map] at hd
    rw [hlength, getElem?_assignDistances, hp, Option.bind_some, hd]
    rfl

/-- Parts of `bent` that still have the distances of an earlier round. Below the first context lies
the second one; the third one lies beside it, and the last one beside the first. -/
def bentParts : List Part :=
  [⟨⟨[⟨1⟩], ⟨1⟩, 5.0⟩, some 7⟩, ⟨⟨[⟨3⟩], ⟨3⟩, 100.0⟩, none⟩, ⟨⟨[⟨4⟩], ⟨4⟩, 100.0⟩, some 1⟩,
    ⟨⟨[⟨5⟩], ⟨5⟩, 100.0⟩, some 7⟩]

theorem bentParts_meet :
    (bentParts.map fun p => p.context).Sublist
        ((Clustering.bent.depthFirst ⟨0⟩).map Prod.fst) ∧
      ((assignDistances (Clustering.bent.depthFirst ⟨0⟩) bentParts).map fun p => p.distance) =
        [some 0, some 2, some 2, none] ∧
      (assignDistances (Clustering.bent.depthFirst ⟨0⟩) bentParts).length = bentParts.length ∧
      (∀ i p q, bentParts[i]? = some p → bentParts[i + 1]? = some q →
        ∃ d, (assignDistances (Clustering.bent.depthFirst ⟨0⟩) bentParts)[i]? =
            some { p with distance := some d } ∧
          (∀ n, Clustering.bent.MeetsAt p.context q.context n ↔ n = d) ∧
          (d = 0 ↔ Clustering.bent.Encloses p.context q.context)) ∧
      ∀ p, bentParts.getLast? = some p →
        (assignDistances (Clustering.bent.depthFirst ⟨0⟩) bentParts).getLast? =
          some { p with distance := none } := by
  have horder : (bentParts.map fun p => p.context).Sublist
      ((Clustering.bent.depthFirst ⟨0⟩).map Prod.fst) := by decide +kernel
  exact ⟨horder, by decide +kernel, assignDistances_meets Clustering.bent ⟨0⟩ bentParts horder⟩

end Part
end SlowRequest
