import SlowRequest.Proofs.Engine.Ordering
import Mathlib.Data.List.Range
namespace SlowRequest

variable {V E : Type} {root : Tag}

theorem output_ne_of_declarationFault? {names : List String} {ds : List Descriptor}
    (h : declarationFault? root names ds = none) : ∀ d ∈ ds, d.output ≠ root := by
  induction ds generalizing names with
  | nil => simp
  | cons d ds ih =>
    rw [declarationFault?] at h
    split at h
    · cases h
    · split at h
      · cases h
      · rename_i hfault
        intro e he
        rcases List.mem_cons.mp he with rfl | he
        · intro hroot
          rw [Descriptor.fault?, if_pos hroot] at hfault
          split at hfault <;> cases hfault
        · exact ih h e he

private theorem deeper_mem (depths : Depths) (anchor : Tag × Nat) (tag : Tag) :
    deeper depths anchor tag = anchor ∨ (deeper depths anchor tag).1 = tag := by
  rw [deeper]
  split
  · split
    · exact .inr rfl
    · exact .inl rfl
  · exact .inl rfl

private theorem foldl_deeper_mem (depths : Depths) (tags : List Tag) (anchor : Tag × Nat) :
    (tags.foldl (deeper depths) anchor).1 = anchor.1 ∨
      (tags.foldl (deeper depths) anchor).1 ∈ tags := by
  induction tags generalizing anchor with
  | nil => exact .inl rfl
  | cons tag tags ih =>
    rw [List.foldl_cons]
    rcases ih (deeper depths anchor tag) with h | h
    · rcases deeper_mem depths anchor tag with hd | hd
      · rw [hd] at h ⊢
        exact .inl h
      · right
        rw [h, hd]
        exact List.mem_cons_self
    · exact .inr (List.mem_cons_of_mem _ h)

theorem length_anchors (depths : Depths) (ds : List Descriptor) :
    (anchors root depths ds).length = ds.length := by
  induction ds generalizing depths with
  | nil => rfl
  | cons d ds ih => rw [anchors, List.length_cons, ih, List.length_cons]

private theorem anchors_mem (root : Tag) (depths : Depths) (ds : List Descriptor) :
    List.Forall₂ (fun d anchor => anchor = root ∨ anchor ∈ d.requiredInputs) ds
      (anchors root depths ds) := by
  induction ds generalizing depths with
  | nil => exact List.Forall₂.nil
  | cons d ds ih =>
    rw [anchors]
    exact List.Forall₂.cons (foldl_deeper_mem depths d.requiredInputs (root, 0)) (ih _)

theorem Descriptor.reads_of_mem {d : Descriptor} {i : Input} (hi : i ∈ d.inputs) :
    d.reads i.name = true := by
  rw [Descriptor.reads, List.any_eq_true]
  exact ⟨i, hi, by simp⟩

theorem Descriptor.reads_of_required {d : Descriptor} {tag : Tag} (htag : tag ∈ d.requiredInputs) :
    d.reads tag = true := by
  obtain ⟨i, hi, rfl⟩ := List.mem_map.mp htag
  exact reads_of_mem (List.mem_filter.mp hi).1

/-- Facts of this tag change nothing for the rule: it is no input and not the anchor. -/
def ScheduledRule.Ignores (r : ScheduledRule V E) (tag : Tag) : Prop :=
  r.descriptor.reads tag = false ∧ tag ≠ r.anchor

theorem ScheduledRule.not_ignores_anchor (r : ScheduledRule V E) : ¬ r.Ignores r.anchor :=
  fun h => h.2 rfl

theorem ScheduledRule.not_ignores_input (r : ScheduledRule V E) :
    ∀ i ∈ r.descriptor.inputs, ¬ r.Ignores i.name := by
  intro i hi h
  have hread := h.1
  rw [Descriptor.reads_of_mem hi] at hread
  cases hread

/-- No rule writes the root tag, or reads what it or a later rule writes. -/
structure InOrder (root : Tag) (rules : List (ScheduledRule V E)) : Prop where
  output_ne : ∀ r ∈ rules, r.descriptor.output ≠ root
  own : ∀ r ∈ rules, r.descriptor.reads r.descriptor.output = false
  later : rules.Pairwise fun r s => r.descriptor.reads s.descriptor.output = false
  anchor : ∀ r ∈ rules, r.anchor = root ∨ r.anchor ∈ r.descriptor.requiredInputs

namespace InOrder

variable {r s : ScheduledRule V E} {rules : List (ScheduledRule V E)}

theorem tail (h : InOrder root (r :: rules)) : InOrder root rules where
  output_ne s hs := h.output_ne s (List.mem_cons_of_mem _ hs)
  own s hs := h.own s (List.mem_cons_of_mem _ hs)
  later := (List.pairwise_cons.mp h.later).2
  anchor s hs := h.anchor s (List.mem_cons_of_mem _ hs)

private theorem not_reads (h : InOrder root (r :: rules)) (hs : s ∈ r :: rules) :
    r.descriptor.reads s.descriptor.output = false := by
  rcases List.mem_cons.mp hs with rfl | hs
  · exact h.own s List.mem_cons_self
  · exact (List.pairwise_cons.mp h.later).1 s hs

theorem ignores (h : InOrder root (r :: rules)) (hs : s ∈ r :: rules) :
    r.Ignores s.descriptor.output := by
  refine ⟨h.not_reads hs, ?_⟩
  intro heq
  rcases h.anchor r List.mem_cons_self with hroot | hmem
  · exact h.output_ne s hs (heq.trans hroot)
  · have hread := Descriptor.reads_of_required hmem
    rw [← heq, h.not_reads hs] at hread
    cases hread

end InOrder

namespace RuleGraph

theorem filterMap_range_getElem? {α : Type} (xs : List α) :
    (List.range xs.length).filterMap (fun i => xs[i]?) = xs := by
  induction xs with
  | nil => rfl
  | cons x xs ih =>
    rw [List.length_cons, List.range_succ_eq_map, List.filterMap_cons, List.filterMap_map]
    simpa using ih

theorem map_zipWith_anchor (rules : List (Rule V E)) (tags : List Tag)
    (hlen : tags.length = rules.length) :
    (rules.zipWith (fun r a => (⟨r, a⟩ : ScheduledRule V E)) tags).map (·.toRule) = rules := by
  induction rules generalizing tags with
  | nil => rfl
  | cons r rules ih =>
    cases tags with
    | nil => cases hlen
    | cons tag tags =>
      rw [List.zipWith_cons_cons, List.map_cons, ih tags (by simpa using hlen)]

private theorem anchor_of_mem_zipWith {P : Descriptor → Tag → Prop} {rules : List (Rule V E)}
    {tags : List Tag} (h : List.Forall₂ P (rules.map Rule.descriptor) tags) :
    ∀ r ∈ rules.zipWith (fun r a => (⟨r, a⟩ : ScheduledRule V E)) tags,
      P r.descriptor r.anchor := by
  induction rules generalizing tags with
  | nil => simp
  | cons r rules ih =>
    rw [List.map_cons] at h
    cases h with
    | cons hr hrest =>
      intro s hs
      rw [List.zipWith_cons_cons] at hs
      rcases List.mem_cons.mp hs with rfl | hs
      · exact hr
      · exact ih hrest s hs

theorem scheduled_of_schedule {α : Type} {xs : List α} {ds : List Descriptor}
    {order stuck : List Nat} (declaration : α → Descriptor) (hds : xs.map declaration = ds)
    (h : schedule ds [] (List.range ds.length) = (order, stuck)) :
    Scheduled (fun y x => (declaration x).reads (declaration y).output) xs
      (order.filterMap fun i => xs[i]?) (stuck.filterMap fun i => xs[i]?) := by
  subst hds
  obtain ⟨rest, horder, hscheduled⟩ := schedule_spec h
  rw [List.nil_append] at horder
  subst horder
  rw [List.length_map] at hscheduled
  have hfeeds : ∀ {i j x y}, xs[i]? = some x → xs[j]? = some y →
      (declaration y).reads (declaration x).output = feeds (xs.map declaration) i j := by
    intro i j x y hx hy
    rw [feeds, List.getElem?_map, List.getElem?_map, hx, hy]
    rfl
  have hall : ∀ i ∈ List.range xs.length, (xs[i]?).isSome := by
    intro i hi
    simpa using hi
  have hxs := hscheduled.filterMap (fun i => xs[i]?) hfeeds hall
  rwa [filterMap_range_getElem?] at hxs

theorem register_eq_ok {rules : List (Rule V E)} {g : RuleGraph V E}
    (h : register root rules = .ok g) :
    declarationFault? root [] (rules.map Rule.descriptor) = none ∧
      producerFault? root (rules.map Rule.descriptor) = none ∧
      ∃ order, schedule (rules.map Rule.descriptor) []
          (List.range (rules.map Rule.descriptor).length) = (order, []) ∧
        g = ⟨root, (order.filterMap fun i => rules[i]?).zipWith (fun r a => ⟨r, a⟩)
          (anchors root [(root, 0)]
            ((order.filterMap fun i => rules[i]?).map Rule.descriptor))⟩ := by
  rw [register] at h
  split at h
  · cases h
  · rename_i hdeclared
    split at h
    · cases h
    · rename_i hproduced
      cases hs : schedule (rules.map Rule.descriptor) []
          (List.range (rules.map Rule.descriptor).length) with
      | mk order stuck =>
        rw [topologicalOrder_eq hs] at h
        by_cases hstuck : stuck = []
        · rw [if_pos hstuck] at h
          injection h with h
          exact ⟨hdeclared, hproduced, order, by rw [hstuck], h.symm⟩
        · rw [if_neg hstuck] at h
          cases h

theorem inOrder_of_register {rules : List (Rule V E)} {g : RuleGraph V E}
    (h : register root rules = .ok g) :
    g.rootTag = root ∧ (g.rules.map (·.toRule)).Perm rules ∧ InOrder root g.rules := by
  obtain ⟨hdeclared, -, order, hs, rfl⟩ := register_eq_ok h
  obtain ⟨hperm, -, hself, hpair, -, -⟩ := scheduled_of_schedule Rule.descriptor rfl hs
  rw [List.filterMap_nil, List.append_nil] at hperm
  generalize (order.filterMap fun i => rules[i]?) = ordered at hperm hpair hself
  have hlen : (anchors root [(root, 0)] (ordered.map Rule.descriptor)).length =
      ordered.length := by
    rw [length_anchors, List.length_map]
  have hmap := map_zipWith_anchor ordered _ hlen
  have hanchor := anchor_of_mem_zipWith
    (anchors_mem root [(root, 0)] (ordered.map Rule.descriptor))
  refine ⟨rfl, ?_, ?_, ?_, ?_, hanchor⟩
  · rw [hmap]
    exact hperm
  · intro r hr
    have hr : r.toRule ∈ ordered := hmap ▸ List.mem_map_of_mem hr
    exact output_ne_of_declarationFault? hdeclared _ (List.mem_map_of_mem (hperm.subset hr))
  · intro r hr
    exact hself r.toRule (hmap ▸ List.mem_map_of_mem hr)
  · rw [← hmap, List.pairwise_map] at hpair
    exact hpair

end RuleGraph
end SlowRequest
