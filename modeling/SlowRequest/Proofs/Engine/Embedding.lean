import SlowRequest.Proofs.Engine.Trail
import Mathlib.Data.Finset.Card
import Mathlib.Data.List.Perm.Subperm
/-!
# Forests within forests

Forests hold the same tree if their facts correspond one to one, with corresponding parents. That
needs no more than a look at one fact after the other: if under facts with one trail the other
forest always has as many facts of each tag and value, a correspondence can be found parents first.
-/
namespace SlowRequest

variable {V : Type}

def Fact.labelUnder (p : FactId) (x : Fact V) : Option (Tag × V) :=
  if x.parent = some p then some (x.tag, x.value) else none

private theorem Fact.eq_of_under {σ : FactId → FactId} {x y : Fact V} (h : x.under σ = y.under σ)
    (hσ : ∀ p q, x.parent = some p → y.parent = some q → σ p = σ q → p = q) : x = y := by
  have hmap : x.parent.map σ = y.parent.map σ := congrArg Fact.parent h
  have hparent : x.parent = y.parent := by
    cases hx : x.parent with
    | none =>
      rw [hx] at hmap
      exact (Option.map_eq_none_iff.mp hmap.symm).symm
    | some p =>
      rw [hx] at hmap
      obtain ⟨q, hq, hpq⟩ := Option.map_eq_some_iff.mp hmap.symm
      rw [hq, hσ p q hx hq hpq.symm]
  have htag : (x.under σ).tag = (y.under σ).tag := by rw [h]
  have hvalue : (x.under σ).value = (y.under σ).value := by rw [h]
  cases x
  cases y
  rw [Fact.mk.injEq]
  exact ⟨htag, hvalue, hparent⟩

namespace FactForest

variable {f g : FactForest V} {σ : FactId → FactId} {n : Nat} {x first : Fact V} {p : FactId}

def brood (f : FactForest V) (p : FactId) : List (Tag × V) :=
  f.facts.toList.filterMap (Fact.labelUnder p)

/-- The facts of two forests are the same but for their order: they correspond one to one, those of
the same tag and value to each other, under parents that correspond too. -/
def SameTree (f g : FactForest V) : Prop :=
  ∃ σ, Set.BijOn σ (Set.Iio f.size) (Set.Iio g.size) ∧
    ∀ id x, f.get? id = some x → g.get? (σ id) = some (x.under σ)

/-- A forest that starts with `first` and goes on with facts that have older parents. -/
structure Rooted (first : Fact V) (f : FactForest V) : Prop where
  top : f.get? 0 = some first
  only : ∀ id x, f.get? id = some x → x.parent = none → id = 0
  older : f.Older

/-- The first `n` facts of `f` correspond to different facts of `g`. -/
structure Embeds (σ : FactId → FactId) (n : Nat) (f g : FactForest V) : Prop where
  injective : Set.InjOn σ (Set.Iio n)
  fact : ∀ id < n, ∀ x, f.get? id = some x → g.get? (σ id) = some (x.under σ)

theorem Embeds.trail {id : FactId} (h : Embeds σ n f g) (hf : f.Older) (hg : g.Older)
    (hn : n ≤ f.size) (hid : id < n) : g.trail (σ id) = f.trail id := by
  apply trail_of_copies hf hg (P := fun id => id < n) ?_ hid
  intro id hid
  obtain ⟨x, hx⟩ := exists_of_lt_size (hid.trans_le hn)
  exact ⟨x, hx, h.fact id hid x hx, fun p hp => (hf id x p hx hp).trans hid⟩

theorem Embeds.mapsTo (h : Embeds σ f.size f g) :
    Set.MapsTo σ (Set.Iio f.size) (Set.Iio g.size) := by
  intro id hid
  obtain ⟨x, hx⟩ := exists_of_lt_size hid
  exact lt_size_of_get? (h.fact id hid x hx)

theorem Embeds.size_le (h : Embeds σ f.size f g) : f.size ≤ g.size := by
  have hmaps : Set.MapsTo σ (Finset.range f.size) (Finset.range g.size) := by
    simpa using h.mapsTo
  have hcard := Finset.card_le_card_of_injOn σ hmaps (by simpa using h.injective)
  rwa [Finset.card_range, Finset.card_range] at hcard

/-- Forests that lie in each other hold the same tree. -/
theorem sameTree_of_embeds {τ : FactId → FactId} (h : Embeds σ f.size f g)
    (hback : Embeds τ g.size g f) : f.SameTree g := by
  have hmaps : Set.MapsTo σ (Finset.range f.size) (Finset.range g.size) := by
    simpa using h.mapsTo
  have hsurj := Finset.surjOn_of_injOn_of_card_le σ hmaps (by simpa using h.injective)
    (by simpa using hback.size_le)
  refine ⟨σ, ⟨h.mapsTo, h.injective, by simpa using hsurj⟩, ?_⟩
  intro id x hx
  exact h.fact id (lt_size_of_get? hx) x hx

section Counting

variable [DecidableEq V]

private theorem count_brood (f : FactForest V) (p : FactId) (label : Tag × V) :
    (f.brood p).count label =
      (List.range f.size).countP fun id => f.get? id = some ⟨label.1, label.2, some p⟩ := by
  have hfacts : f.facts.toList = (List.range f.size).filterMap f.get? := by
    rw [← RuleGraph.filterMap_range_getElem? f.facts.toList, ← size_eq_length]
    exact List.filterMap_congr fun id _ => (f.get?_eq_getElem? id).symm
  rw [brood, hfacts, List.filterMap_filterMap, List.count_filterMap]
  apply List.countP_congr
  intro id _
  cases f.get? id with
  | none => simp
  | some x =>
    obtain ⟨tag, value, parent⟩ := x
    by_cases hp : parent = some p
    · simp [Fact.labelUnder, hp, Prod.ext_iff]
    · simp [Fact.labelUnder, hp]

private theorem countP_lt_count_brood (hx : f.get? n = some x) (hp : x.parent = some p) :
    ((List.range n).countP fun id => f.get? id = some x) < (f.brood p).count (x.tag, x.value) := by
  have hfact : (⟨x.tag, x.value, some p⟩ : Fact V) = x := by rw [← hp]
  have hsub : (List.range (n + 1)).Sublist (List.range f.size) :=
    List.range_sublist.mpr (lt_size_of_get? hx)
  have hcount := hsub.countP_le (p := fun id => f.get? id = some x)
  rw [List.range_succ, List.countP_append] at hcount
  simp only [List.countP_singleton, hx] at hcount
  rw [count_brood, hfact]
  exact Nat.lt_of_succ_le hcount

/-- If a fact has no more children of a tag and value than its image, one more child finds a place
that is not taken yet. -/
theorem Embeds.exists_place (h : Embeds σ n f g) (hf : f.Older) (hx : f.get? n = some x)
    (hp : x.parent = some p) (hbrood : (f.brood p).Subperm (g.brood (σ p))) :
    ∃ m, g.get? m = some (x.under σ) ∧ ∀ id < n, σ id ≠ m := by
  by_contra hnone
  push Not at hnone
  -- All places for the child would be taken by children of the same tag and value before it.
  have htaken : ((List.range g.size).filter fun m => g.get? m = some (x.under σ)) ⊆
      ((List.range n).filter fun id => f.get? id = some x).map σ := by
    intro m hm
    have hm : g.get? m = some (x.under σ) := of_decide_eq_true (List.mem_filter.mp hm).2
    obtain ⟨id, hid, rfl⟩ := hnone m hm
    obtain ⟨y, hy⟩ := exists_of_lt_size (hid.trans (lt_size_of_get? hx))
    rw [h.fact id hid y hy] at hm
    obtain rfl : y = x := by
      apply Fact.eq_of_under (Option.some.inj hm)
      intro q p hq hp
      exact h.injective ((hf id y q hy hq).trans hid) (hf n x p hx hp)
    exact List.mem_map_of_mem
      (List.mem_filter.mpr ⟨List.mem_range.mpr hid, decide_eq_true hy⟩)
  have hle := ((List.nodup_range.filter _).subperm htaken).length_le
  rw [List.length_map, ← List.countP_eq_length_filter, ← List.countP_eq_length_filter] at hle
  have himage : x.under σ = ⟨x.tag, x.value, some (σ p)⟩ := by
    rw [Fact.under, hp]
    rfl
  have hcount := hbrood.count_le (x.tag, x.value)
  rw [count_brood g, ← himage] at hcount
  exact absurd (countP_lt_count_brood hx hp) (Nat.not_lt.mpr (hcount.trans hle))

end Counting

private theorem Embeds.update {m : FactId} (h : Embeds σ n f g) (hf : f.Older)
    (hx : f.get? n = some x) (hm : g.get? m = some (x.under σ)) (hfree : ∀ id < n, σ id ≠ m) :
    Embeds (Function.update σ n m) (n + 1) f g := by
  have hold : ∀ id < n, Function.update σ n m id = σ id := fun id hid =>
    Function.update_of_ne hid.ne m σ
  have hunder : ∀ id ≤ n, ∀ y, f.get? id = some y →
      y.under (Function.update σ n m) = y.under σ := by
    intro id hid y hy
    apply Fact.under_congr
    intro p hp
    exact hold p ((hf id y p hy hp).trans_le hid)
  constructor
  · intro i hi j hj hij
    rcases Nat.lt_succ_iff_lt_or_eq.mp hi with hi | rfl <;>
      rcases Nat.lt_succ_iff_lt_or_eq.mp hj with hj | rfl
    · rw [hold i hi, hold j hj] at hij
      exact h.injective hi hj hij
    · rw [hold i hi, Function.update_self] at hij
      exact absurd hij (hfree i hi)
    · rw [hold j hj, Function.update_self] at hij
      exact absurd hij.symm (hfree j hj)
    · rfl
  · intro id hid y hy
    rw [hunder id (Nat.le_of_lt_succ hid) y hy]
    rcases Nat.lt_succ_iff_lt_or_eq.mp hid with hid | rfl
    · rw [hold id hid]
      exact h.fact id hid y hy
    · rw [Function.update_self, Option.some.inj (hy.symm.trans hx)]
      exact hm

/-- A forest lies in another one with the same first fact, if no fact has more children of a tag
and value than the facts with its trail have there. -/
theorem exists_embeds (hf : f.Rooted first) (hg : g.Rooted first)
    (hbrood : ∀ p q, p < f.size → q < g.size → f.trail p = g.trail q →
      (f.brood p).Subperm (g.brood q)) : ∃ σ, Embeds σ f.size f g := by
  classical
  have hsteps : ∀ n ≤ f.size, ∃ σ, Embeds σ n f g := by
    intro n
    induction n with
    | zero => exact fun _ => ⟨id, by simp [Set.InjOn], by simp⟩
    | succ n ih =>
      intro hn
      obtain ⟨σ, h⟩ := ih (Nat.le_of_succ_le hn)
      obtain ⟨x, hx⟩ := exists_of_lt_size hn
      cases hp : x.parent with
      | none =>
        obtain rfl := hf.only n x hx hp
        obtain rfl := Option.some.inj (hf.top.symm.trans hx)
        exact ⟨_, h.update hf.older hx ((Fact.under_of_root σ hp).symm ▸ hg.top) (by simp)⟩
      | some p =>
        have hlt : p < n := hf.older n x p hx hp
        have hsize := hlt.trans hn
        obtain ⟨y, hy⟩ := exists_of_lt_size hsize
        have htrail := h.trail hf.older hg.older (Nat.le_of_succ_le hn) hlt
        obtain ⟨m, hm, hfree⟩ := h.exists_place hf.older hx hp
          (hbrood p (σ p) hsize (lt_size_of_get? (h.fact p hlt y hy)) htrail.symm)
        exact ⟨_, h.update hf.older hx hm hfree⟩
  exact hsteps f.size (Nat.le_refl _)

end FactForest
end SlowRequest
