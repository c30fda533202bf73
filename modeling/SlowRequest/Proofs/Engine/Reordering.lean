import SlowRequest.Proofs.Engine.Coverage
import SlowRequest.Proofs.Engine.Embedding
import SlowRequest.Proofs.Engine.Progress
import SlowRequest.Proofs.Engine.Registration
/-!
# Orders of registration

Rules without optional inputs may be registered in any order. That changes the schedule, and with
it the order of the facts, but under every fact the rules write what its trail tells them to, so
that two calls succeed together and then leave one tree.
-/
namespace SlowRequest

variable {V E : Type}

/-- What the rules write under a fact if all of them get to fire. -/
def offspring (rules : List (ScheduledRule V E)) (vars : Variables) (f : FactForest V)
    (p : FactId) : List (Tag × V) :=
  rules.flatMap fun r =>
    if p ∈ f.ids r.anchor then (r.valuesAt vars f p).map fun v => (r.descriptor.output, v) else []

private theorem flatMap_ite_eq {α β : Type} [DecidableEq α] {xs : List α} (hnodup : xs.Nodup)
    (x : α) (ys : α → List β) :
    (xs.flatMap fun y => if y = x then ys y else []) = if x ∈ xs then ys x else [] := by
  induction xs with
  | nil => rfl
  | cons z xs ih =>
    obtain ⟨hz, hnodup⟩ := List.nodup_cons.mp hnodup
    rw [List.flatMap_cons, ih hnodup]
    by_cases hx : z = x
    · subst hx
      rw [if_pos rfl, if_neg hz, if_pos List.mem_cons_self, List.append_nil]
    · rw [if_neg hx, List.nil_append]
      simp only [List.mem_cons, Ne.symm hx, false_or]

section Broods

variable {rules : List (ScheduledRule V E)} {vars : Variables} {f g : FactForest V} {p q : FactId}
  {root : Tag}

private theorem filterMap_labelUnder_facts (e : Evaluation V E) (p : FactId) :
    e.facts.filterMap (Fact.labelUnder p) =
      if e.anchor = p then e.values.map fun v => (e.rule.descriptor.output, v) else [] := by
  rw [Evaluation.facts, List.filterMap_map]
  by_cases hp : e.anchor = p
  · rw [if_pos hp, ← List.filterMap_eq_map]
    apply List.filterMap_congr
    intro v _
    simp [Fact.labelUnder, hp]
  · rw [if_neg hp, List.filterMap_eq_nil_iff]
    intro v _
    simp [Fact.labelUnder, hp]

private theorem offspring_eq_flatMap (rules : List (ScheduledRule V E)) (vars : Variables)
    (f : FactForest V) (p : FactId) :
    offspring rules vars f p = (firings rules f).flatMap fun firing =>
      if firing.2 = p then
        (firing.1.valuesAt vars f firing.2).map fun v => (firing.1.descriptor.output, v)
      else [] := by
  rw [offspring, firings, List.flatMap_assoc]
  apply List.flatMap_congr
  intro r _
  have hnodup : (f.ids r.anchor).Nodup := by
    rw [FactForest.ids_eq]
    exact List.nodup_range.filter _
  rw [List.flatMap_map]
  exact (flatMap_ite_eq hnodup p fun a =>
    (r.valuesAt vars f a).map fun v => (r.descriptor.output, v)).symm

private theorem ScheduledRule.fireAt_eq_of_trail {r : ScheduledRule V E}
    (hrequired : ∀ i ∈ r.descriptor.inputs, i.isOptional = false)
    (hroot : f.root?.map Fact.value = g.root?.map Fact.value) (htrail : f.trail p = g.trail q) :
    r.fireAt vars f p = r.fireAt vars g q := by
  apply fireAt_of_trail hroot htrail
  intro i hi hoptional
  rw [hrequired i hi] at hoptional
  cases hoptional

private theorem offspring_of_trail (hf : f.Older) (hg : g.Older)
    (hroot : f.root?.map Fact.value = g.root?.map Fact.value) (htrail : f.trail p = g.trail q)
    (hrequired : ∀ r ∈ rules, ∀ i ∈ r.descriptor.inputs, i.isOptional = false) :
    offspring rules vars f p = offspring rules vars g q := by
  apply List.flatMap_congr
  intro r hr
  have hfire : r.fireAt vars f p = r.fireAt vars g q :=
    ScheduledRule.fireAt_eq_of_trail (hrequired r hr) hroot htrail
  have hids : p ∈ f.ids r.anchor ↔ q ∈ g.ids r.anchor := by
    rw [FactForest.mem_ids_iff_line hf, FactForest.mem_ids_iff_line hg, FactForest.line, htrail,
      FactForest.line]
  rw [ScheduledRule.valuesAt, ScheduledRule.valuesAt, hfire]
  simp only [hids]

namespace Run

variable {first : Fact V} {log log' : List (Evaluation V E)} {last last' : FactForest V}
  {failure : Option (SessionError E)} {rules' : List (ScheduledRule V E)}

private theorem rooted (h : Run rules vars first log last failure) (hfirst : first.parent = none) :
    last.Rooted first where
  top := h.get?_zero
  only id x hx hp := by
    rcases h.get?_cases hx with ⟨hid, -⟩ | ⟨e, -, he⟩
    · exact hid
    · obtain ⟨v, -, rfl⟩ := List.mem_map.mp he
      cases hp
  older := h.older hfirst

/-- Under every fact a run has written the first of what its rules write there, and all of it if it
has ended. -/
theorem brood_prefix (h : Run rules vars first log last failure) (horder : InOrder root rules)
    (hfirst : first.parent = none) (p : FactId) :
    ∃ later, last.brood p ++ later = offspring rules vars last p ∧
      (failure = none → later = []) := by
  have hbrood : last.brood p = (log.map fun e => (e.rule, e.anchor)).flatMap fun firing =>
      if firing.2 = p then
        (firing.1.valuesAt vars last firing.2).map fun v => (firing.1.descriptor.output, v)
      else [] := by
    rw [FactForest.brood, h.toList, List.filterMap_cons, Fact.labelUnder, hfirst,
      if_neg (by simp), List.filterMap_flatMap, List.flatMap_map]
    apply List.flatMap_congr
    intro e he
    rw [filterMap_labelUnder_facts, ScheduledRule.valuesAt_of_fireAt (h.fireAt_eq horder e he)]
  rw [offspring_eq_flatMap, hbrood]
  cases h.reached horder with
  | finished all => exact ⟨[], by rw [all, List.append_nil], fun _ => rfl⟩
  | failed later hplanned _ =>
    rw [hplanned, List.flatMap_append]
    exact ⟨_, rfl, fun hnone => by cases hnone⟩

section Reordered

variable (h : Run rules vars first log last failure)
  (h' : Run rules' vars first log' last' none) (horder : InOrder root rules)
  (horder' : InOrder root rules') (hfirst : first.parent = none) (hperm : rules.Perm rules')
  (hrequired : ∀ r ∈ rules, ∀ i ∈ r.descriptor.inputs, i.isOptional = false)
include h h' horder horder' hfirst hperm hrequired

/-- What a run leaves, even one that fails, lies in what a run of the same rules in another order
leaves at its end. -/
theorem exists_embeds : ∃ σ, FactForest.Embeds σ last.size last last' := by
  have hroot := h.map_root?.trans h'.map_root?.symm
  apply FactForest.exists_embeds (h.rooted hfirst) (h'.rooted hfirst)
  intro p q _ _ htrail
  obtain ⟨later, hlater, -⟩ := h.brood_prefix horder hfirst p
  obtain ⟨later', hlater', hall⟩ := h'.brood_prefix horder' hfirst q
  rw [hall rfl, List.append_nil] at hlater'
  have hsub : (last.brood p).Subperm (last.brood p ++ later) :=
    (List.sublist_append_left ..).subperm
  rw [hlater, offspring_of_trail (h.older hfirst) (h'.older hfirst) hroot htrail hrequired] at hsub
  rw [hlater']
  exact hsub.trans (hperm.flatMap_right _).subperm

theorem finishes : failure = none := by
  cases hreached : h.reached horder with
  | finished _ => rfl
  | @failed r a cause later hplanned hfails =>
    exfalso
    obtain ⟨σ, hσ⟩ := h.exists_embeds h' horder horder' hfirst hperm hrequired
    obtain ⟨hr, ha⟩ : r ∈ rules ∧ a ∈ last.ids r.anchor := by
      rw [← mem_firings, hplanned]
      exact List.mem_append_right _ List.mem_cons_self
    obtain ⟨x, hx, htag⟩ := FactForest.mem_ids.mp ha
    have hlt := FactForest.lt_size_of_get? hx
    have ha' : σ a ∈ last'.ids r.anchor :=
      FactForest.mem_ids.mpr ⟨_, hσ.fact a hlt x hx, htag⟩
    obtain ⟨e, he, rfl, hanchor⟩ := h'.exists_evaluation horder' (hperm.subset hr) ha'
    have htrail := hσ.trail (h.older hfirst) (h'.older hfirst) (Nat.le_refl _) hlt
    have hfire := h'.fireAt_eq horder' e he
    rw [hanchor, ScheduledRule.fireAt_eq_of_trail (hrequired e.rule hr)
      (h'.map_root?.trans h.map_root?.symm) htrail, hfails] at hfire
    cases hfire

end Reordered

end Run

end Broods

section Acceptance

variable {root : Tag} {ds es : List Descriptor}

theorem Declared.perm (h : Declared root ds) (hperm : ds.Perm es) : Declared root es where
  names := (hperm.map _).nodup_iff.mp h.names
  sound d hd := h.sound d (hperm.symm.subset hd)
  produced d hd i hi hrequired := by
    rcases h.produced d (hperm.symm.subset hd) i hi hrequired with hroot | ⟨e, he, hwrites⟩
    · exact .inl hroot
    · exact .inr ⟨e, hperm.subset he, hwrites⟩

theorem OnCycle.perm {d : Descriptor} (h : OnCycle ds d) (hperm : ds.Perm es) : OnCycle es d := by
  have hdepends : DependsOn ds ≤ DependsOn es := fun _ _ hde =>
    ⟨hperm.subset hde.1, hperm.subset hde.2.1, hde.2.2⟩
  exact Relation.TransGen.mono hdepends d d h

end Acceptance

namespace RuleGraph

variable {rules rules' : List (Rule V E)} {root : Tag} {g g' : RuleGraph V E}

theorem register_perm (hperm : rules.Perm rules') (h : register root rules = .ok g) :
    ∃ g', register root rules' = .ok g' := by
  obtain ⟨hdeclared, hacyclic⟩ := acyclic_of_register h
  apply exists_register (hdeclared.perm (hperm.map _))
  intro d hcycle
  exact hacyclic d (hcycle.perm (hperm.map _).symm)

/-- The anchors of rules do not depend on the order of registration. -/
theorem perm_of_register (hperm : rules.Perm rules') (h : register root rules = .ok g)
    (h' : register root rules' = .ok g') : g.rules.Perm g'.rules := by
  obtain ⟨depth, hdepth, -, -, hordered, hrules⟩ := exists_depth h
  obtain ⟨depth', -, hunique, -, hordered', hrules'⟩ := exists_depth h'
  obtain rfl := hunique depth (hdepth.perm (hperm.map _))
  rw [hrules, hrules']
  exact ((hordered.trans hperm).trans hordered'.symm).map _

/-- Rules without optional inputs are accepted in any order or in none. Accepted in two orders,
their calls on one root value succeed both or fail both, and leave one tree if they succeed. -/
theorem call_reordered (root : Tag) (hperm : rules.Perm rules')
    (hrequired : ∀ r ∈ rules, ∀ i ∈ r.descriptor.inputs, i.isOptional = false) :
    ((∃ g, register root rules = .ok g) ↔ ∃ g', register root rules' = .ok g') ∧
    ∀ g g', register root rules = .ok g → register root rules' = .ok g' →
      ∀ value vars (s s' : Session V E), s.Activated g value vars → s'.Activated g' value vars →
        ((∃ n, s.call.2 = .ok n) ↔ ∃ n, s'.call.2 = .ok n) ∧
        ((∃ n, s.call.2 = .ok n) → s.call.1.facts.SameTree s'.call.1.facts) := by
  refine ⟨⟨?_, ?_⟩, ?_⟩
  · rintro ⟨g, hg⟩
    exact register_perm hperm hg
  · rintro ⟨g, hg⟩
    exact register_perm hperm.symm hg
  intro g g' hg hg' value vars s s' hs hs'
  obtain ⟨hroot, hrules, horder⟩ := inOrder_of_register hg
  obtain ⟨hroot', -, horder'⟩ := inOrder_of_register hg'
  have hgraph := perm_of_register hperm hg hg'
  have hneeded : ∀ r ∈ g.rules, ∀ i ∈ r.descriptor.inputs, i.isOptional = false := fun r hr =>
    hrequired r.toRule (hrules.subset (List.mem_map_of_mem hr))
  have hneeded' : ∀ r ∈ g'.rules, ∀ i ∈ r.descriptor.inputs, i.isOptional = false := fun r hr =>
    hneeded r (hgraph.symm.subset hr)
  obtain ⟨last, failure, hrun, hcall⟩ := hs.call
  obtain ⟨last', failure', hrun', hcall'⟩ := hs'.call
  rw [hroot] at hrun
  rw [hroot'] at hrun'
  rw [hcall, hcall']
  cases failure with
  | none =>
    obtain rfl := hrun'.finishes hrun horder' horder rfl hgraph.symm hneeded'
    obtain ⟨σ, hσ⟩ := hrun.exists_embeds hrun' horder horder' rfl hgraph hneeded
    obtain ⟨τ, hτ⟩ := hrun'.exists_embeds hrun horder' horder rfl hgraph.symm hneeded'
    exact ⟨⟨fun _ => ⟨_, rfl⟩, fun _ => ⟨_, rfl⟩⟩, fun _ => FactForest.sameTree_of_embeds hσ hτ⟩
  | some e =>
    cases failure' with
    | none => cases hrun.finishes hrun' horder horder' rfl hgraph hneeded
    | some e' =>
      refine ⟨iff_of_false ?_ ?_, ?_⟩
      all_goals
        rintro ⟨n, hn⟩
        cases hn

end RuleGraph

/-- Registered backwards, the two rules on the root fire in the other order. -/
theorem diamondRules_reordered :
    ∃ (g g' : RuleGraph Nat String) (s s' : Session Nat String),
      RuleGraph.register "root" diamondRules = .ok g ∧
      RuleGraph.register "root" diamondRules.reverse = .ok g' ∧
      s.Activated g 3 [] ∧ s'.Activated g' 3 [] ∧
      s.call.1.facts.facts =
        #[⟨"root", 3, none⟩, ⟨"left", 4, some 0⟩, ⟨"right", 5, some 0⟩] ∧
      s'.call.1.facts.facts =
        #[⟨"root", 3, none⟩, ⟨"right", 5, some 0⟩, ⟨"left", 4, some 0⟩] ∧
      s.call.1.facts.SameTree s'.call.1.facts := by
  have hrun : ((RuleGraph.register "root" diamondRules).toOption.bind fun g =>
      ((Session.new g).activate 3 []).toOption.map fun s => (s.call.2, s.call.1.facts.facts)) =
      some (.ok 3, #[⟨"root", 3, none⟩, ⟨"left", 4, some 0⟩, ⟨"right", 5, some 0⟩]) := by
    decide +kernel
  have hrun' : ((RuleGraph.register "root" diamondRules.reverse).toOption.bind fun g =>
      ((Session.new g).activate 3 []).toOption.map fun s => (s.call.2, s.call.1.facts.facts)) =
      some (.ok 3, #[⟨"root", 3, none⟩, ⟨"right", 5, some 0⟩, ⟨"left", 4, some 0⟩]) := by
    decide +kernel
  obtain ⟨g, s, hregister, hactivated, hcall, hfacts⟩ := Session.exists_activated hrun
  obtain ⟨g', s', hregister', hactivated', -, hfacts'⟩ := Session.exists_activated hrun'
  have hrequired : ∀ r ∈ diamondRules, ∀ i ∈ r.descriptor.inputs, i.isOptional = false := by
    simp [diamondRules, summing, Input.needed]
  obtain ⟨-, hcalls⟩ :=
    RuleGraph.call_reordered "root" (List.reverse_perm diamondRules).symm hrequired
  obtain ⟨-, htree⟩ := hcalls g g' hregister hregister' 3 [] s s' hactivated hactivated'
  exact ⟨g, g', s, s', hregister, hregister', hactivated, hactivated', hfacts, hfacts',
    htree ⟨3, congrArg Prod.snd hcall⟩⟩

end SlowRequest
