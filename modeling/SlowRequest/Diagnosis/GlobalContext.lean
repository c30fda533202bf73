import SlowRequest.Diagnosis.Finding
/-!
# The global context

The most specific call that alone exceeds the baseline: from the root, down into the longest
child as long as that child exceeds it.
-/
namespace SlowRequest

/-- The earliest child that no other exceeds, with its duration. Children that are not longer
than `longest`, such as those of no known duration, are passed over. -/
def longestChild (t : CallTree) :
    List NodeId → Option NodeId → Float → Option (NodeId × Float)
  | [], best, longest => best.map fun id => (id, longest)
  | id :: ids, best, longest =>
    match t.get? id with
    | some n =>
      if longest < n.duration then longestChild t ids (some id) n.duration
      else longestChild t ids best longest
    | none => longestChild t ids best longest

def negativeInfinity : Float := -1.0 / 0.0

def heavyChild? (t : CallTree) (baseline : Float) (id : NodeId) : Option NodeId :=
  match longestChild t (t.children id) none negativeInfinity with
  | some (child, duration) => if baseline < duration then some child else none
  | none => none

theorem longestChild_mem (t : CallTree) (ids : List NodeId) (best : Option NodeId)
    (longest : Float) {id : NodeId} {duration : Float}
    (h : longestChild t ids best longest = some (id, duration)) : id ∈ ids ∨ best = some id := by
  induction ids generalizing best longest with
  | nil =>
    simp only [longestChild, Option.map_eq_some_iff, Prod.mk.injEq] at h
    obtain ⟨_, hb, rfl, _⟩ := h
    exact .inr hb
  | cons c cs ih =>
    unfold longestChild at h
    split at h
    · split at h
      · rcases ih _ _ h with hm | hb
        · exact .inl (by simp [hm])
        · exact .inl (by simp_all)
      · rcases ih _ _ h with hm | hb
        · exact .inl (by simp [hm])
        · exact .inr hb
    · rcases ih _ _ h with hm | hb
      · exact .inl (by simp [hm])
      · exact .inr hb

theorem heavyChild?_mem {t : CallTree} {baseline : Float} {id child : NodeId}
    (h : heavyChild? t baseline id = some child) : child ∈ t.children id := by
  unfold heavyChild? at h
  split at h
  · rename_i hl
    split at h
    · cases h
      simpa using longestChild_mem t _ _ _ hl
    · cases h
  · cases h

def descend (t : CallTree) (baseline : Float) (id : NodeId) : NodeId :=
  match _h : heavyChild? t baseline id with
  | some child => descend t baseline child
  | none => id
termination_by t.size - id.index
decreasing_by
  have hm := heavyChild?_mem _h
  by_cases hc : t.contains id
  · rw [t.children_eq id hc] at hm
    have := Arena.lt_of_mem_childrenOf t.consistent hm
    have := CallTree.contains_iff.mp hc
    simp only [CallTree.size] at *
    omega
  · have hnone : t.get? id = none :=
      Array.getElem?_eq_none (Nat.le_of_not_lt fun hlt => hc (CallTree.contains_iff.mpr hlt))
    simp [CallTree.children, hnone] at hm

def globalContext (t : CallTree) (baseline : Float) : NodeId := descend t baseline t.root

def globalContextRule : DiagnosisRule where
  descriptor :=
    { name := "GlobalContextRule"
      inputs := [.needed Tag.root]
      parameters := [.needed baselineVariable]
      output := Tag.globalContext
      quantity := .single }
  condition _ := true
  action b := ofRule do
    let t ← b.tree
    let baseline ← b.baseline
    return .single (.node (globalContext t baseline))
  report _ := []

end SlowRequest
