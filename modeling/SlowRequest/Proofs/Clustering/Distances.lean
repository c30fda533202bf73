import SlowRequest.Diagnosis.Clustering
import SlowRequest.Proofs.CallTree.Meeting
/-! # Distances between contexts -/
namespace SlowRequest

namespace CallTree

variable {t : CallTree}

def Spaced (t : CallTree) : List NodeId → List (Option Nat) → Prop
  | x :: y :: xs, d :: ds => (∀ n, d = some n → t.MeetsAt x y n) ∧ t.Spaced (y :: xs) ds
  | [_], ds => ds = [none]
  | [], ds => ds = []
  | _ :: _ :: _, [] => False

private theorem spaced_none (t : CallTree) (xs : List NodeId) :
    t.Spaced xs (xs.map fun _ => none) := by
  match xs with
  | [] => rfl
  | [_] => rfl
  | _ :: y :: xs =>
    refine ⟨?_, spaced_none t (y :: xs)⟩
    intro n hn
    cases hn

private theorem distancesFrom_spaced {walk : List (NodeId × Nat)} {x u : NodeId × Nat}
    {least : Option Nat} {contexts : List NodeId} (htracked : t.Tracked x u least)
    (hchain : List.IsChain t.WalkStep (u :: walk))
    (horder : (x :: walk).Pairwise fun p q => ¬ t.Encloses q.1 p.1) :
    t.Spaced (x.1 :: contexts) (Part.distancesFrom walk x.2 least contexts) := by
  induction walk generalizing x u least contexts with
  | nil =>
    cases contexts with
    | nil => rfl
    | cons y contexts => exact spaced_none t (x.1 :: y :: contexts)
  | cons v walk ih =>
    cases contexts with
    | nil => rfl
    | cons y contexts =>
      obtain ⟨hstep, hchain⟩ := List.isChain_cons_cons.mp hchain
      obtain ⟨hx, horder⟩ := List.pairwise_cons.mp horder
      have hsince := htracked.next hstep (hx v List.mem_cons_self)
      simp only [Part.distancesFrom]
      split
      · rename_i hv
        refine ⟨?_, ?_⟩
        · intro n hn
          cases hn
          rw [← hv]
          exact hsince.meetsAt
        · rw [← hv]
          exact ih (show t.Tracked v v none from rfl) hchain horder
      · have horder' : (x :: walk).Pairwise fun p q => ¬ t.Encloses q.1 p.1 :=
          List.pairwise_cons.mpr
            ⟨fun q hq => hx q (List.mem_cons_of_mem _ hq), (List.pairwise_cons.mp horder).2⟩
        exact ih (show t.Tracked x v (some _) from hsince) hchain horder'

theorem distances_spaced {walk : List (NodeId × Nat)} {contexts : List NodeId}
    (hchain : List.IsChain t.WalkStep walk)
    (horder : walk.Pairwise fun p q => ¬ t.Encloses q.1 p.1) :
    t.Spaced contexts (Part.distances walk contexts) := by
  induction walk generalizing contexts with
  | nil => cases contexts with
    | nil => rfl
    | cons x contexts => exact spaced_none t (x :: contexts)
  | cons v walk ih =>
    cases contexts with
    | nil => rfl
    | cons x contexts =>
      simp only [Part.distances]
      split
      · rename_i hv
        rw [← hv]
        exact distancesFrom_spaced (show t.Tracked v v none from rfl) hchain horder
      · exact ih hchain.tail (List.pairwise_cons.mp horder).2

end CallTree

namespace Part

private theorem distancesFrom_of_not_mem {walk : List (NodeId × Nat)} {depth : Nat}
    {least : Option Nat} {y : NodeId} {contexts : List NodeId} (h : y ∉ walk.map Prod.fst) :
    distancesFrom walk depth least (y :: contexts) =
      none :: none :: contexts.map fun _ => none := by
  induction walk generalizing least with
  | nil => rfl
  | cons v walk ih =>
    rw [List.map_cons, List.mem_cons, not_or] at h
    simp only [distancesFrom, if_neg (Ne.symm h.1)]
    exact ih h.2

private theorem distancesFrom_of_mem {walk : List (NodeId × Nat)} {depth : Nat} {least : Option Nat}
    {y : NodeId} {contexts : List NodeId} (h : y ∈ walk.map Prod.fst) :
    ∃ d ds, distancesFrom walk depth least (y :: contexts) = some d :: ds := by
  induction walk generalizing least with
  | nil => cases h
  | cons v walk ih =>
    simp only [distancesFrom]
    split
    · exact ⟨_, _, rfl⟩
    · rename_i hv
      rcases List.mem_cons.mp h with hy | hy
      · exact absurd hy.symm hv
      · exact ih hy

theorem distances_of_not_after {walk : List (NodeId × Nat)} {x y : NodeId}
    {contexts : List NodeId} (h : ¬ [x, y].Sublist (walk.map Prod.fst)) :
    distances walk (x :: y :: contexts) = none :: none :: contexts.map fun _ => none := by
  induction walk with
  | nil => rfl
  | cons v walk ih =>
    simp only [distances]
    split
    · rename_i hv
      apply distancesFrom_of_not_mem
      intro hy
      apply h
      rw [List.map_cons, hv]
      exact (List.singleton_sublist.mpr hy).cons_cons x
    · apply ih
      intro hs
      exact h (hs.cons v.1)

theorem distances_of_after {walk : List (NodeId × Nat)} {x y : NodeId}
    (contexts : List NodeId) (h : [x, y].Sublist (walk.map Prod.fst)) :
    ∃ d ds, distances walk (x :: y :: contexts) = some d :: ds := by
  induction walk with
  | nil => cases h
  | cons v walk ih =>
    simp only [distances]
    split
    · rename_i hv
      apply distancesFrom_of_mem
      rw [List.map_cons, hv] at h
      exact List.singleton_sublist.mp (List.cons_sublist_cons.mp h)
    · rename_i hv
      apply ih
      rw [List.map_cons] at h
      cases h with
      | cons _ h => exact h
      | cons_cons _ h => exact absurd rfl hv

private theorem length_distancesFrom (walk : List (NodeId × Nat)) (depth : Nat) (least : Option Nat)
    (contexts : List NodeId) :
    (distancesFrom walk depth least contexts).length = contexts.length + 1 := by
  induction walk generalizing depth least contexts with
  | nil => cases contexts <;> simp [distancesFrom]
  | cons v walk ih =>
    cases contexts with
    | nil => simp [distancesFrom]
    | cons y contexts =>
      simp only [distancesFrom]
      split <;> simp [ih]

theorem length_distances (walk : List (NodeId × Nat)) (contexts : List NodeId) :
    (distances walk contexts).length = contexts.length := by
  induction walk generalizing contexts with
  | nil => cases contexts <;> simp [distances]
  | cons v walk ih =>
    cases contexts with
    | nil => simp [distances]
    | cons x contexts =>
      simp only [distances]
      split
      · exact length_distancesFrom ..
      · exact ih _

end Part
end SlowRequest
