import SlowRequest.CallTree.Walk
namespace SlowRequest

namespace CallTree

variable {t : CallTree}

/-- `a` is `b` or one of the calls above it. -/
def Encloses (t : CallTree) (a b : NodeId) : Prop := ∃ steps, t.ancestor b steps = .ok a

/-- The lowest call that encloses all of `ids`. -/
structure IsLowestCommonAncestor (t : CallTree) (a : NodeId) (ids : List NodeId) : Prop where
  common : ∀ x ∈ ids, t.Encloses a x
  lowest : ∀ b, (∀ x ∈ ids, t.Encloses b x) → t.Encloses b a

theorem parent?_index_lt {id p : NodeId} (h : t.parent? id = some p) : p.index < id.index :=
  t.consistent.parent_lt id.index p h

theorem parent?_eq_none {id : NodeId} (hid : t.contains id) :
    t.parent? id = none ↔ id = t.root := by
  constructor
  · intro hnone
    rcases Nat.eq_zero_or_pos id.index with hzero | hpos
    · exact congrArg NodeId.mk hzero
    · have hsome := t.consistent.parent_isSome id.index hpos (contains_iff.mp hid)
      rw [show t.nodes.parentOf id.index = none from hnone] at hsome
      cases hsome
  · rintro rfl
    cases hp : t.parent? t.root with
    | none => rfl
    | some p => exact absurd (parent?_index_lt hp) (Nat.not_lt_zero _)

theorem contains_of_parent? {id p : NodeId} (h : t.parent? id = some p) : t.contains id := by
  refine contains_iff.mpr (Nat.lt_of_not_le fun hid => ?_)
  rw [parent?, Arena.parentOf_eq_none_of_size_le hid] at h
  cases h

theorem ancestor_one {id p : NodeId} : t.ancestor id 1 = .ok p ↔ t.parent? id = some p := by
  rw [ancestor_succ]
  constructor
  · rintro ⟨q, hq, h⟩
    cases h
    exact hq
  · intro h
    exact ⟨p, h, rfl⟩

theorem ancestor_add {id a : NodeId} {m n : Nat} :
    t.ancestor id (m + n) = .ok a ↔ ∃ b, t.ancestor id m = .ok b ∧ t.ancestor b n = .ok a := by
  induction m generalizing id with
  | zero => simp
  | succ m ih =>
    rw [Nat.succ_add]
    simp only [ancestor_succ, ih]
    constructor
    · rintro ⟨p, hp, b, hb, ha⟩
      exact ⟨b, ⟨p, hp, hb⟩, ha⟩
    · rintro ⟨b, ⟨p, hp, hb⟩, ha⟩
      exact ⟨p, hp, b, hb, ha⟩

theorem ancestor_trans {id b a : NodeId} {m n : Nat} (hb : t.ancestor id m = .ok b)
    (ha : t.ancestor b n = .ok a) : t.ancestor id (m + n) = .ok a :=
  ancestor_add.mpr ⟨b, hb, ha⟩

theorem ancestor_rest {id b a : NodeId} {m n : Nat} (hb : t.ancestor id m = .ok b)
    (ha : t.ancestor id (m + n) = .ok a) : t.ancestor b n = .ok a := by
  obtain ⟨c, hc, ha⟩ := ancestor_add.mp ha
  rw [hb] at hc
  cases hc
  exact ha

theorem ancestor_index_le {id a : NodeId} {n : Nat} (h : t.ancestor id n = .ok a) :
    a.index + n ≤ id.index := by
  induction n generalizing id with
  | zero =>
    cases h
    exact Nat.le_refl _
  | succ n ih =>
    obtain ⟨p, hp, h⟩ := ancestor_succ.mp h
    have hlt := parent?_index_lt hp
    have hle := ih h
    omega

theorem ancestor_injective {id a : NodeId} {m n : Nat} (hm : t.ancestor id m = .ok a)
    (hn : t.ancestor id n = .ok a) : m = n := by
  have key : ∀ {m n : Nat}, t.ancestor id m = .ok a → t.ancestor id n = .ok a → n ≤ m := by
    intro m n hm hn
    refine Nat.le_of_not_lt fun hlt => ?_
    obtain ⟨k, rfl⟩ := Nat.exists_eq_add_of_lt hlt
    have := ancestor_index_le (ancestor_rest (n := k + 1) hm hn)
    omega
  exact Nat.le_antisymm (key hn hm) (key hm hn)

theorem encloses_iff_le {a b : NodeId} :
    t.Encloses a b ↔ ∃ steps ≤ b.index, (t.ancestor b steps).toOption = some a := by
  constructor
  · rintro ⟨n, hn⟩
    have := ancestor_index_le hn
    exact ⟨n, by omega, by rw [hn]; rfl⟩
  · rintro ⟨n, -, hn⟩
    cases h : t.ancestor b n with
    | ok c =>
      rw [h] at hn
      cases hn
      exact ⟨n, h⟩
    | error e =>
      rw [h] at hn
      cases hn

instance (t : CallTree) (a b : NodeId) : Decidable (t.Encloses a b) :=
  decidable_of_iff _ encloses_iff_le.symm

theorem contains_of_ancestor {id a : NodeId} {n : Nat} (hid : t.contains id)
    (h : t.ancestor id n = .ok a) : t.contains a := by
  have hle := ancestor_index_le h
  have hlt := contains_iff.mp hid
  exact contains_iff.mpr (by omega)

theorem Encloses.refl (a : NodeId) : t.Encloses a a := ⟨0, rfl⟩

theorem Encloses.trans {a b c : NodeId} (hab : t.Encloses a b) (hbc : t.Encloses b c) :
    t.Encloses a c := by
  obtain ⟨m, hm⟩ := hab
  obtain ⟨n, hn⟩ := hbc
  exact ⟨n + m, ancestor_trans hn hm⟩

theorem Encloses.index_le {a b : NodeId} (h : t.Encloses a b) : a.index ≤ b.index := by
  obtain ⟨n, hn⟩ := h
  have := ancestor_index_le hn
  omega

theorem Encloses.antisymm {a b : NodeId} (hab : t.Encloses a b) (hba : t.Encloses b a) :
    a = b := by
  have h₁ := hab.index_le
  have h₂ := hba.index_le
  cases a
  cases b
  congr 1
  exact Nat.le_antisymm h₁ h₂

theorem Encloses.contains {a b : NodeId} (h : t.Encloses a b) (hb : t.contains b) :
    t.contains a := by
  obtain ⟨n, hn⟩ := h
  exact contains_of_ancestor hb hn

theorem encloses_of_parent? {id p : NodeId} (h : t.parent? id = some p) : t.Encloses p id :=
  ⟨1, ancestor_one.mpr h⟩

theorem IsLowestCommonAncestor.unique {a b : NodeId} {ids : List NodeId}
    (ha : t.IsLowestCommonAncestor a ids) (hb : t.IsLowestCommonAncestor b ids) : a = b :=
  (hb.lowest a ha.common).antisymm (ha.lowest b hb.common)

end CallTree
end SlowRequest
