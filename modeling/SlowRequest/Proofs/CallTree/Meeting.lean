import Mathlib.Data.List.Chain
import SlowRequest.Proofs.CallTree.PreOrder
/-!
# Where calls of a walk meet

The least depth that a walk visits between two calls tells their lowest common ancestor: it lies
one link above that depth.
-/
namespace SlowRequest

private theorem sublist_triple {α : Type} {a b c : α} {l : List α} (hl : l.Nodup)
    (hab : [a, b].Sublist l) (hbc : [b, c].Sublist l) : [a, b, c].Sublist l := by
  induction l with
  | nil => cases hab
  | cons h l ih =>
    obtain ⟨hh, hl⟩ := List.nodup_cons.mp hl
    have hlater : b ∈ l → [b, c].Sublist l := by
      intro hb
      cases hbc with
      | cons _ hbc => exact hbc
      | cons_cons _ _ => exact absurd hb hh
    cases hab with
    | cons _ hab => exact (ih hl hab (hlater (hab.subset (by simp)))).cons h
    | cons_cons _ hb => exact (hlater (List.singleton_sublist.mp hb)).cons_cons a

theorem sublist_or_sublist {α : Type} {a b : α} {l : List α} (ha : a ∈ l) (hb : b ∈ l)
    (hne : a ≠ b) : [a, b].Sublist l ∨ [b, a].Sublist l := by
  induction l with
  | nil => cases ha
  | cons h l ih =>
    rcases List.mem_cons.mp ha with rfl | hal
    · rcases List.mem_cons.mp hb with rfl | hbl
      · exact absurd rfl hne
      · exact .inl ((List.singleton_sublist.mpr hbl).cons_cons _)
    · rcases List.mem_cons.mp hb with rfl | hbl
      · exact .inr ((List.singleton_sublist.mpr hal).cons_cons _)
      · exact (ih hal hbl).imp (·.cons h) (·.cons h)

namespace CallTree

variable {t : CallTree}

/-- `d` links above `x` lies the lowest call that encloses `x` and `y`. -/
def MeetsAt (t : CallTree) (x y : NodeId) (d : Nat) : Prop :=
  ∃ a, t.ancestor x d = .ok a ∧ t.IsLowestCommonAncestor a [x, y]

/-- What the walk knows at `u` when it has visited the depth `low` and no smaller one since `x`:
the chains above `x` and `u` join just above that depth, and what `u` has below that place was
met after `x`. -/
structure Since (t : CallTree) (x u : NodeId × Nat) (low : Nat) : Prop where
  pos : 1 ≤ low
  le_start : low ≤ x.2 + 1
  le_depth : low ≤ u.2
  joined : ∃ a, t.ancestor x.1 (x.2 + 1 - low) = .ok a ∧ t.ancestor u.1 (u.2 + 1 - low) = .ok a
  fresh : ∀ k, k + low ≤ u.2 → ∃ s, t.ancestor u.1 k = .ok s ∧ ¬ t.Encloses s x.1

theorem Since.first {x v : NodeId × Nat} (hstep : t.WalkStep x v)
    (hnew : ¬ t.Encloses v.1 x.1) : t.Since x v v.2 := by
  obtain ⟨h1, hle, c, hc, hanc⟩ := hstep
  refine ⟨h1, hle, Nat.le_refl _, ⟨c, hanc, ?_⟩, ?_⟩
  · rw [show v.2 + 1 - v.2 = 1 by omega]
    exact ancestor_one.mpr hc
  · intro k hk
    rw [show k = 0 by omega]
    exact ⟨v.1, rfl, hnew⟩

theorem Since.next {x u v : NodeId × Nat} {low : Nat} (h : t.Since x u low)
    (hstep : t.WalkStep u v) (hnew : ¬ t.Encloses v.1 x.1) : t.Since x v (min low v.2) := by
  obtain ⟨hpos, hstart, hdepth, ⟨a, hxa, hua⟩, hfresh⟩ := h
  obtain ⟨h1, hle, c, hc, hanc⟩ := hstep
  rcases Nat.lt_or_ge v.2 low with hlt | hge
  · -- the walk has come up: the chains now join where `v` hangs
    rw [Nat.min_eq_right (Nat.le_of_lt hlt)]
    have hac : t.ancestor a (low - v.2) = .ok c := by
      apply ancestor_rest hua
      rw [show u.2 + 1 - low + (low - v.2) = u.2 + 1 - v.2 by omega]
      exact hanc
    refine ⟨h1, by omega, Nat.le_refl _, ⟨c, ?_, ?_⟩, ?_⟩
    · rw [show x.2 + 1 - v.2 = x.2 + 1 - low + (low - v.2) by omega]
      exact ancestor_trans hxa hac
    · rw [show v.2 + 1 - v.2 = 1 by omega]
      exact ancestor_one.mpr hc
    · intro k hk
      rw [show k = 0 by omega]
      exact ⟨v.1, rfl, hnew⟩
  · rw [Nat.min_eq_left hge]
    refine ⟨hpos, hstart, hge, ⟨a, hxa, ?_⟩, ?_⟩
    · rw [show v.2 + 1 - low = (v.2 - low) + 1 by omega]
      refine ancestor_succ.mpr ⟨c, hc, ancestor_rest hanc ?_⟩
      rw [show u.2 + 1 - v.2 + (v.2 - low) = u.2 + 1 - low by omega]
      exact hua
    · intro k hk
      cases k with
      | zero => exact ⟨v.1, rfl, hnew⟩
      | succ k =>
        obtain ⟨s, hs, hsx⟩ := hfresh (u.2 + 1 - v.2 + k) (by omega)
        exact ⟨s, ancestor_succ.mpr ⟨c, hc, ancestor_rest hanc hs⟩, hsx⟩

theorem Since.meetsAt {x u : NodeId × Nat} {low : Nat} (h : t.Since x u low) :
    t.MeetsAt x.1 u.1 (x.2 + 1 - low) := by
  obtain ⟨hpos, hstart, hdepth, ⟨a, hxa, hua⟩, hfresh⟩ := h
  refine ⟨a, hxa, ?_, ?_⟩
  · intro y hy
    rcases List.mem_cons.mp hy with rfl | hy
    · exact ⟨_, hxa⟩
    · rw [List.mem_singleton.mp hy]
      exact ⟨_, hua⟩
  · intro b hb
    have hbx := hb x.1 (by simp)
    obtain ⟨k, hk⟩ := hb u.1 (by simp)
    rcases Nat.lt_or_ge u.2 (k + low) with hlt | hge
    · obtain ⟨j, rfl⟩ := Nat.exists_eq_add_of_le (show u.2 + 1 - low ≤ k by omega)
      exact ⟨j, ancestor_rest hua hk⟩
    · obtain ⟨s, hs, hsx⟩ := hfresh k hge
      rw [hk] at hs
      cases hs
      exact absurd hbx hsx

def Tracked (t : CallTree) (x u : NodeId × Nat) : Option Nat → Prop
  | none => u = x
  | some low => t.Since x u low

theorem Tracked.next {x u v : NodeId × Nat} {least : Option Nat} (h : t.Tracked x u least)
    (hstep : t.WalkStep u v) (hnew : ¬ t.Encloses v.1 x.1) :
    t.Since x v ((least.map (min · v.2)).getD v.2) := by
  cases least with
  | none =>
    have hu : u = x := h
    rw [hu] at hstep
    exact Since.first hstep hnew
  | some low => exact Since.next h hstep hnew

theorem Tracked.run {x u v : NodeId × Nat} {least : Option Nat} {seg : List (NodeId × Nat)}
    (h : t.Tracked x u least) (hchain : List.IsChain t.WalkStep (u :: (seg ++ [v])))
    (hnew : ∀ q ∈ seg ++ [v], ¬ t.Encloses q.1 x.1) :
    ∃ low, t.Since x v low ∧ ∀ l, least = some l → low ≤ l := by
  induction seg generalizing u least with
  | nil =>
    obtain ⟨hstep, -⟩ := List.isChain_cons_cons.mp hchain
    refine ⟨_, h.next hstep (hnew v (by simp)), ?_⟩
    rintro l rfl
    exact Nat.min_le_left _ _
  | cons q seg ih =>
    obtain ⟨hstep, hchain⟩ := List.isChain_cons_cons.mp hchain
    have hq := h.next hstep (hnew q (by simp))
    obtain ⟨low, hlow, hle⟩ := ih (show t.Tracked x q (some _) from hq) hchain
      fun r hr => hnew r (List.mem_cons_of_mem _ hr)
    refine ⟨low, hlow, ?_⟩
    rintro l rfl
    exact Nat.le_trans (hle _ rfl) (Nat.min_le_left _ _)

private theorem split_of_triple {y x w : NodeId} {walk : List (NodeId × Nat)}
    (h : [y, x, w].Sublist (walk.map Prod.fst)) :
    ∃ p q r before one two after, p.1 = y ∧ q.1 = x ∧ r.1 = w ∧
      walk = before ++ (p :: (one ++ [q])) ++ (two ++ [r]) ++ after := by
  obtain ⟨entries, hsub, heq⟩ := List.sublist_map_iff.mp h
  obtain ⟨p, rest, rfl, hp, heq⟩ := List.map_eq_cons_iff.mp heq.symm
  obtain ⟨q, rest, rfl, hq, heq⟩ := List.map_eq_cons_iff.mp heq
  obtain ⟨r, rest, rfl, hr, -⟩ := List.map_eq_cons_iff.mp heq
  obtain ⟨front, back, rfl, hpmem, hqr⟩ := List.cons_sublist_iff.mp hsub
  obtain ⟨before, one, rfl⟩ := List.append_of_mem hpmem
  obtain ⟨middle, back, rfl, hqmem, hrest⟩ := List.cons_sublist_iff.mp hqr
  obtain ⟨one', two, rfl⟩ := List.append_of_mem hqmem
  obtain ⟨two', after, rfl⟩ := List.append_of_mem (hrest.subset List.mem_cons_self)
  exact ⟨p, q, r, before, one ++ one', two ++ two', after, hp, hq, hr, by simp⟩

/-- What the walk visits between a call and one below it lies below that call, too. -/
theorem encloses_of_between {start y x w : NodeId}
    (h : [y, x, w].Sublist ((t.depthFirst start).map Prod.fst)) (hw : t.Encloses y w) :
    t.Encloses y x := by
  obtain ⟨p, q, r, before, one, two, after, rfl, rfl, rfl, hwalk⟩ := split_of_triple h
  have hchain := isChain_depthFirst t start
  have horder := pairwise_depthFirst t start
  rw [hwalk] at hchain horder
  have hnew : ∀ s ∈ (one ++ [q]) ++ (two ++ [r]), ¬ t.Encloses s.1 p.1 := by
    have hp := (List.pairwise_append.mp horder).1
    rw [List.append_assoc, List.cons_append] at hp
    exact (List.pairwise_cons.mp (List.pairwise_append.mp hp).2.1).1
  have hfirst : List.IsChain t.WalkStep (p :: (one ++ [q])) :=
    hchain.left_of_append.left_of_append.right_of_append
  have hsecond : List.IsChain t.WalkStep (q :: (two ++ [r])) := by
    have h := hchain.left_of_append
    rw [List.append_assoc, ← List.cons_append, List.append_assoc, ← List.append_assoc] at h
    exact h.right_of_append
  obtain ⟨low, hlow, -⟩ := Tracked.run (show t.Tracked p p none from rfl) hfirst
    fun s hs => hnew s (List.mem_append_left _ hs)
  obtain ⟨low', hlow', hle⟩ := Tracked.run (show t.Tracked p q (some low) from hlow) hsecond
    fun s hs => hnew s (List.mem_append_right _ hs)
  -- the walk is still below `p` at `r`, so it never came up to the depth of `p`
  obtain ⟨a, ha, hlca⟩ := hlow'.meetsAt
  have hpa : t.Encloses p.1 a := by
    apply hlca.lowest
    intro s hs
    rcases List.mem_cons.mp hs with rfl | hs
    · exact Encloses.refl _
    · rw [List.mem_singleton.mp hs]
      exact hw
  have hindex := hpa.index_le
  have hclimb := ancestor_index_le ha
  have hfall := hle low rfl
  obtain ⟨b, hb, hbq⟩ := hlow.joined
  rw [show p.2 + 1 - low = 0 by omega] at hb
  cases hb
  exact ⟨_, hbq⟩

/-- Of two calls that enclose calls met in order, the walk meets the first one first exactly if
the second one does not enclose it. -/
theorem sublist_iff_not_encloses {start x y u v : NodeId}
    (huv : [u, v].Sublist ((t.depthFirst start).map Prod.fst))
    (hx : x ∈ (t.depthFirst start).map Prod.fst) (hy : y ∈ (t.depthFirst start).map Prod.fst)
    (hxu : t.Encloses x u) (hyv : t.Encloses y v) :
    [x, y].Sublist ((t.depthFirst start).map Prod.fst) ↔ ¬ t.Encloses y x := by
  have horder : ((t.depthFirst start).map Prod.fst).Pairwise fun p q => ¬ t.Encloses q p :=
    List.pairwise_map.mpr (pairwise_depthFirst t start)
  have hlater : ∀ {a b}, [a, b].Sublist ((t.depthFirst start).map Prod.fst) →
      ¬ t.Encloses b a := List.pairwise_iff_forall_sublist.mp horder
  constructor
  · exact fun h => hlater h
  · intro hyx
    have hne : x ≠ y := by
      rintro rfl
      exact hyx (Encloses.refl x)
    rcases sublist_or_sublist hx hy hne with h | h
    · exact h
    · have hnodup := nodup_depthFirst t start
      have hxv : [x, v].Sublist ((t.depthFirst start).map Prod.fst) := by
        by_cases hxu' : x = u
        · rw [hxu']
          exact huv
        · have hu : u ∈ (t.depthFirst start).map Prod.fst := huv.subset (by simp)
          rcases sublist_or_sublist hx hu hxu' with h' | h'
          · have h3 := sublist_triple hnodup h' huv
            exact List.Sublist.trans (by simp) h3
          · exact absurd hxu (hlater h')
      exact absurd (encloses_of_between (sublist_triple hnodup h hxv) hyv) hyx

end CallTree
end SlowRequest
