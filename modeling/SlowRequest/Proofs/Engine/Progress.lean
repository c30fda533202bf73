import SlowRequest.Tally
import SlowRequest.Proofs.Engine.Derivation
namespace SlowRequest

variable {V E : Type}

namespace FactForest

variable {f : FactForest V} {id p : FactId} {tag : Tag} {x : Fact V} {v : V} {vars : Variables}

def parent? (f : FactForest V) (id : FactId) : Option FactId := (f.get? id).bind Fact.parent

theorem lineage_of_parent (hx : f.get? id = some x) (hp : x.parent = some p) (hlt : p < id) :
    f.lineage id = id :: f.lineage p := by
  rw [lineage_eq hx, hp, Option.elim_some, if_pos hlt]

theorem lineage_of_root (hx : f.get? id = some x) (hp : x.parent = none) :
    f.lineage id = [id] := by
  rw [lineage_eq hx, hp]
  rfl

def Finds (f : FactForest V) (id : FactId) (tag : Tag) (v : V) : Prop :=
  ∃ j x, f.nearest? id tag = some j ∧ f.get? j = some x ∧ x.value = v

theorem finds_here (hx : f.get? id = some x) : f.Finds id x.tag x.value := by
  refine ⟨id, x, ?_, hx, rfl⟩
  rw [nearest?, lineage_eq hx, List.find?_cons_of_pos]
  simp [hx]

theorem nearest?_above (hx : f.get? id = some x) (hp : x.parent = some p) (hlt : p < id)
    (hne : x.tag ≠ tag) : f.nearest? id tag = f.nearest? p tag := by
  rw [nearest?, lineage_of_parent hx hp hlt, List.find?_cons_of_neg, nearest?]
  simpa [hx] using hne

theorem nearest?_of_root (hx : f.get? id = some x) (hp : x.parent = none) (hne : x.tag ≠ tag) :
    f.nearest? id tag = none := by
  rw [nearest?, lineage_of_root hx hp, List.find?_cons_of_neg, List.find?_nil]
  simpa [hx] using hne

theorem Finds.bindInput (h : f.Finds id tag v) : f.bindInput id (.needed tag) = some v := by
  obtain ⟨j, x, hj, hx, rfl⟩ := h
  rw [FactForest.bindInput, Input.needed]
  simp [hj, hx]

private theorem bind?_of_finds {root : Fact V} {found : List (Tag × V)}
    (hroot : f.root? = some root) (h : ∀ p ∈ found, f.Finds id p.1 p.2) :
    f.bind? (found.map fun p => .needed p.1) vars id =
      some ⟨root.value, found.map fun p => (p.1, some p.2), vars⟩ := by
  have hbound : (found.map fun p => Input.needed p.1).mapM (f.bound? id) =
      some (found.map fun p => (p.1, some p.2)) := by
    induction found with
    | nil => rfl
    | cons p found ih =>
      rw [List.map_cons, List.mapM_cons, bound?, (h p List.mem_cons_self).bindInput,
        ih fun q hq => h q (List.mem_cons_of_mem _ hq)]
      rfl
  rw [bind?, hroot, hbound]
  rfl

private theorem map_filter_range {α β : Type} (q : α → Bool) (h : α → Option β) (xs : List α) :
    ((List.range xs.length).filter fun i => xs[i]?.any q).map (fun i => xs[i]?.bind h) =
      (xs.filter q).map h := by
  induction xs with
  | nil => rfl
  | cons x xs ih =>
    rw [List.length_cons, List.range_succ_eq_map, List.filter_cons, List.filter_cons]
    have hrest : (((List.range xs.length).map Nat.succ).filter
        fun i => (x :: xs)[i]?.any q).map (fun i => (x :: xs)[i]?.bind h) =
        (xs.filter q).map h := by
      rw [← ih, List.filter_map, List.map_map]
      rfl
    rw [List.getElem?_cons_zero, Option.any_some]
    split
    · rw [List.map_cons, List.map_cons, hrest]
      rfl
    · exact hrest

private theorem map_parent?_ids_eq (f : FactForest V) (tag : Tag) :
    (f.ids tag).map f.parent? = (f.facts.toList.filter (·.tag == tag)).map Fact.parent := by
  have hparent : f.parent? = fun id => f.facts.toList[id]?.bind Fact.parent := by
    funext id
    rw [parent?, get?_eq_getElem?]
  rw [← map_filter_range, ids_eq, size_eq_length, hparent]
  simp only [get?_eq_getElem?]

private theorem tally_length_filter {α : Type} (key : α → Tag) {tags : List Tag} {xs : List α}
    (hnodup : tags.Nodup) (hall : ∀ x ∈ xs, key x ∈ tags) :
    tally (tags.map fun tag => (xs.filter (key · == tag)).length) = xs.length := by
  induction tags generalizing xs with
  | nil =>
    cases xs with
    | nil => rfl
    | cons x xs => exact absurd (hall x List.mem_cons_self) (List.not_mem_nil)
  | cons tag tags ih =>
    obtain ⟨hnew, hnodup⟩ := List.nodup_cons.mp hnodup
    have hrest : ∀ x ∈ xs.filter fun x => !(key x == tag), key x ∈ tags := by
      intro x hx
      obtain ⟨hx, hne⟩ := List.mem_filter.mp hx
      rcases List.mem_cons.mp (hall x hx) with heq | hmem
      · simp [heq] at hne
      · exact hmem
    have hothers : (tags.map fun tag => (xs.filter (key · == tag)).length) =
        tags.map fun other =>
          ((xs.filter fun x => !(key x == tag)).filter (key · == other)).length := by
      apply List.map_congr_left
      intro other hother
      rw [List.filter_filter]
      congr 1
      apply List.filter_congr
      intro x _
      by_cases heq : key x = other
      · have hne : ¬ other = tag := fun h => hnew (h ▸ hother)
        simp [heq, hne]
      · simp [heq]
    rw [List.map_cons, tally, hothers, ih hnodup hrest,
      ← List.length_eq_length_filter_add]

theorem size_eq_tally_ids (tags : List Tag) (hnodup : tags.Nodup)
    (hall : ∀ x ∈ f.facts.toList, x.tag ∈ tags) :
    f.size = tally (tags.map fun tag => (f.ids tag).length) := by
  have hlength : (fun tag => (f.ids tag).length) =
      fun tag => (f.facts.toList.filter (·.tag == tag)).length := by
    funext tag
    rw [← List.length_map f.parent?, map_parent?_ids_eq, List.length_map]
  rw [size_eq_length, hlength, tally_length_filter Fact.tag hnodup hall]

end FactForest

namespace Binding

variable {root v w : V} {tag other : Tag} {rest : List (Tag × Option V)} {vars : Variables}

theorem get?_here : (⟨root, (tag, some v) :: rest, vars⟩ : Binding V).get? tag = some v := by
  rw [get?, List.lookup_cons_self]
  rfl

theorem get?_next (hne : tag ≠ other) :
    (⟨root, (other, some w) :: rest, vars⟩ : Binding V).get? tag =
      (⟨root, rest, vars⟩ : Binding V).get? tag := by
  rw [get?, get?, List.lookup_cons, beq_eq_false_iff_ne.mpr hne]

theorem require_of_get? {b : Binding V} (h : b.get? tag = some v) :
    b.require (E := E) tag = .ok v := by
  rw [require, h]

end Binding

namespace ScheduledRule

variable {r : ScheduledRule V E} {b : Binding V} {vars : Variables} {f : FactForest V}

theorem fireAt_of_finds {a : FactId} {root : Fact V} (found : List (Tag × V))
    (hroot : f.root? = some root)
    (hinputs : r.descriptor.inputs = found.map fun p => .needed p.1)
    (h : ∀ p ∈ found, f.Finds a p.1 p.2) :
    r.fireAt vars f a =
      r.fireWith ⟨root.value, found.map fun p => (p.1, some p.2), vars⟩ := by
  rw [fireAt, hinputs, FactForest.bind?_of_finds hroot h]

theorem fireWith_of_action (out : Output V) {values : List V}
    (hvars : r.missingVariable? b = none) (hcondition : r.condition b = true)
    (haction : r.action b = .ok out) (hvalues : out.values = values)
    (hquantity : r.descriptor.quantity = .single → values.length ≤ 1) :
    r.fireWith b = .ok values := by
  subst hvalues
  have hfew : ¬ (r.descriptor.quantity = .single ∧ 1 < out.values.length) := by
    rintro ⟨hsingle, hlt⟩
    have := hquantity hsingle
    omega
  rw [fireWith, hvars]
  simp only [hcondition, if_true, haction, bind, Except.bind, hfew, if_false]
  rfl

theorem fireWith_of_refused (hvars : r.missingVariable? b = none)
    (hcondition : r.condition b = false) : r.fireWith b = .ok [] := by
  rw [fireWith, hvars]
  simp only [hcondition]
  rfl

end ScheduledRule

section Invariants

variable {I : FactForest V → Prop} {vars : Variables} {r : ScheduledRule V E}
  {rules : List (ScheduledRule V E)} {f F : FactForest V} {anchors : List FactId}

/-- The rule fires at every fact of its anchor, and what it writes there keeps `I`. -/
def ScheduledRule.Keeps (r : ScheduledRule V E) (vars : Variables) (I : FactForest V → Prop) :
    Prop :=
  ∀ f, I f → ∀ a ∈ f.ids r.anchor, ∃ values,
    r.fireAt vars f a = .ok values ∧ I (f.insertAll r.descriptor.output a values)

theorem ScheduledRule.Keeps.fireEach (hr : r.Keeps vars I) (hf : I f)
    (hanchors : ∀ a ∈ anchors, a ∈ f.ids r.anchor) :
    ∃ g, r.fireEach vars anchors f = (g, none) ∧ I g := by
  induction anchors generalizing f with
  | nil => exact ⟨f, rfl, hf⟩
  | cons a rest ih =>
    obtain ⟨values, hvalues, hI⟩ := hr f hf a (hanchors a List.mem_cons_self)
    have hgrow := FactForest.grows_of_insertAll f r.descriptor.output a values
    rw [ScheduledRule.fireEach, hvalues]
    exact ih hI fun b hb => hgrow.mem_ids (hanchors b (List.mem_cons_of_mem _ hb))

theorem fireAll_of_keeps (hrules : ∀ r ∈ rules, r.Keeps vars I) (hf : I f) :
    ∃ F, fireAll vars rules f = (F, none) ∧ I F := by
  induction rules generalizing f with
  | nil => exact ⟨f, rfl, hf⟩
  | cons r rules ih =>
    obtain ⟨g, hg, hI⟩ := (hrules r List.mem_cons_self).fireEach hf (fun _ ha => ha)
    rw [fireAll, ScheduledRule.fire, hg]
    exact ih (fun s hs => hrules s (List.mem_cons_of_mem _ hs)) hI

def ScheduledRule.valuesAt (r : ScheduledRule V E) (vars : Variables) (f : FactForest V)
    (a : FactId) : List V :=
  (r.fireAt vars f a).toOption.getD []

theorem ScheduledRule.valuesAt_of_fireAt {values : List V} {a : FactId}
    (h : r.fireAt vars f a = .ok values) : r.valuesAt vars f a = values := by
  rw [valuesAt, h]
  rfl

private theorem flatMap_evaluateAll {α : Type} {root : Tag} (horder : InOrder root rules)
    (hrun : fireAll vars rules f = (F, none))
    (h : ScheduledRule V E → FactId → List V → List α) :
    ((evaluateAll vars rules f).flatMap fun e => h e.rule e.anchor e.values) =
      rules.flatMap fun r => (F.ids r.anchor).flatMap fun a => h r a (r.valuesAt vars F a) := by
  obtain ⟨honce, hfired⟩ := evaluateAll_spec horder hrun
  have hvalues : ((evaluateAll vars rules f).flatMap fun e => h e.rule e.anchor e.values) =
      ((evaluateAll vars rules f).map fun e => (e.rule, e.anchor)).flatMap
        fun p => h p.1 p.2 (p.1.valuesAt vars F p.2) := by
    rw [List.flatMap_map]
    apply List.flatMap_congr
    intro e he
    rw [ScheduledRule.valuesAt_of_fireAt (hfired e he)]
  rw [hvalues, honce, List.flatMap_assoc]
  apply List.flatMap_congr
  intro r _
  rw [List.flatMap_map]

theorem mem_valuesAt_of_get? {root tag : Tag} {value v : V} {id p : FactId}
    (horder : InOrder root rules)
    (hrun : fireAll vars rules (FactForest.empty.insert root value none) = (F, none))
    (hfact : F.get? id = some ⟨tag, v, some p⟩) :
    ∃ r ∈ rules, r.descriptor.output = tag ∧ v ∈ r.valuesAt vars F p := by
  obtain ⟨honce, hfired⟩ := evaluateAll_spec horder hrun
  rw [FactForest.get?_eq_getElem?, toList_fireAll hrun] at hfact
  rcases List.mem_append.mp (List.mem_of_getElem? hfact) with hroot | hwritten
  · cases List.mem_singleton.mp hroot
  · obtain ⟨e, he, hwritten⟩ := List.mem_flatMap.mp hwritten
    obtain ⟨w, hw, heq⟩ := List.mem_map.mp hwritten
    cases heq
    have hmem : (e.rule, e.anchor) ∈
        rules.flatMap fun r => (F.ids r.anchor).map fun a => (r, a) := by
      rw [← honce]
      exact List.mem_map_of_mem he
    obtain ⟨r, hr, hpair⟩ := List.mem_flatMap.mp hmem
    obtain ⟨a, -, hpair⟩ := List.mem_map.mp hpair
    cases hpair
    refine ⟨e.rule, hr, rfl, ?_⟩
    rw [ScheduledRule.valuesAt_of_fireAt (hfired e he)]
    exact hw

private theorem flatMap_filter {α β : Type} (q : α → Bool) (h : α → List β) (xs : List α) :
    (xs.filter q).flatMap h = xs.flatMap fun x => if q x then h x else [] := by
  induction xs with
  | nil => rfl
  | cons x xs ih =>
    rw [List.filter_cons, List.flatMap_cons, ← ih]
    split
    · exact List.flatMap_cons
    · rfl

/-- The facts of a tag by their parents: each rule that writes the tag, at each fact of its
anchor, adds as many as it writes there. -/
theorem map_parent?_ids {root tag : Tag} {value : V} (horder : InOrder root rules)
    (hrun : fireAll vars rules (FactForest.empty.insert root value none) = (F, none))
    (htag : root ≠ tag) :
    (F.ids tag).map F.parent? =
      (rules.filter fun r => r.descriptor.output = tag).flatMap fun r =>
        (F.ids r.anchor).flatMap fun a => (r.valuesAt vars F a).map fun _ => some a := by
  have hwriters : ((rules.filter fun r => r.descriptor.output = tag).flatMap fun r =>
      (F.ids r.anchor).flatMap fun a => (r.valuesAt vars F a).map fun _ => some a) =
      rules.flatMap fun r => (F.ids r.anchor).flatMap fun a =>
        if r.descriptor.output = tag then (r.valuesAt vars F a).map fun _ => some a else [] := by
    rw [flatMap_filter]
    apply List.flatMap_congr
    intro r _
    by_cases hout : r.descriptor.output = tag
    · simp [hout]
    · simp [hout]
  rw [hwriters, ← flatMap_evaluateAll horder hrun fun r a values =>
    if r.descriptor.output = tag then values.map fun _ => some a else []]
  rw [FactForest.map_parent?_ids_eq, toList_fireAll hrun, List.filter_append]
  have hroot : (FactForest.empty.insert root value none).facts.toList.filter (·.tag == tag) =
      [] := by
    simpa [FactForest.insert, FactForest.empty, FactForest.facts] using htag
  rw [hroot, List.nil_append, List.filter_flatMap, List.map_flatMap]
  apply List.flatMap_congr
  intro e _
  rw [Evaluation.facts, List.filter_map]
  by_cases hout : e.rule.descriptor.output = tag
  · rw [if_pos hout, List.filter_eq_self.mpr (by simp [hout]), List.map_map]
    rfl
  · rw [if_neg hout, List.filter_eq_nil_iff.mpr (by simp [hout])]
    rfl

end Invariants

end SlowRequest
