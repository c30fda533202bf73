import SlowRequest.Proofs.Engine.Growth
/-!
# Translated values

A translation of the values of facts carries over to a whole session: if every rule answers a
translated binding with the translation of its answer, then so do all of them together. Tags,
parents and positions are not values, so they stay the same.
-/
namespace SlowRequest

variable {V E : Type} {φ : V → V}

def Fact.map (φ : V → V) (x : Fact V) : Fact V := { x with value := φ x.value }

namespace Binding

def map (φ : V → V) (b : Binding V) : Binding V :=
  ⟨φ b.root, b.inputs.map fun input => (input.1, input.2.map φ), b.vars⟩

theorem get?_map (φ : V → V) (b : Binding V) (tag : Tag) :
    (b.map φ).get? tag = (b.get? tag).map φ := by
  obtain ⟨root, inputs, vars⟩ := b
  rw [get?, get?, map]
  induction inputs with
  | nil => rfl
  | cons input inputs ih =>
    obtain ⟨name, value⟩ := input
    simp only [List.map_cons, List.lookup_cons] at ih ⊢
    cases tag == name with
    | true => rfl
    | false => exact ih

theorem require_map (φ : V → V) (b : Binding V) (tag : Tag) :
    ((b.map φ).require tag : Except (ActionError E) V) = (b.require tag).map φ := by
  rw [require, require, get?_map]
  cases b.get? tag <;> rfl

end Binding

namespace Output

def map (φ : V → V) : Output V → Output V
  | nothing => .nothing
  | single v => .single (φ v)
  | multiple vs => .multiple (vs.map φ)

private theorem values_map (φ : V → V) (o : Output V) : (o.map φ).values = o.values.map φ := by
  cases o <;> rfl

end Output

namespace FactForest

variable {f g : FactForest V} {id : FactId} {tag : Tag}

def Translates (φ : V → V) (f g : FactForest V) : Prop := g.facts = f.facts.map (Fact.map φ)

namespace Translates

theorem get? (h : f.Translates φ g) (id : FactId) : g.get? id = (f.get? id).map (Fact.map φ) := by
  rw [get?_eq_getElem?, get?_eq_getElem?, h, Array.toList_map, List.getElem?_map]

theorem size (h : f.Translates φ g) : g.size = f.size := by
  rw [size_eq_length, size_eq_length, h, Array.toList_map, List.length_map]

private theorem any_tag (h : f.Translates φ g) (id : FactId) (tag : Tag) :
    (g.get? id).any (·.tag == tag) = (f.get? id).any (·.tag == tag) := by
  rw [h.get?]
  cases f.get? id <;> rfl

theorem ids (h : f.Translates φ g) (tag : Tag) : g.ids tag = f.ids tag := by
  rw [ids_eq, ids_eq, h.size]
  exact List.filter_congr fun id _ => h.any_tag id tag

theorem ofTag (h : f.Translates φ g) (tag : Tag) :
    g.ofTag tag = (f.ofTag tag).map (Fact.map φ) := by
  rw [ofTag_eq, ofTag_eq, h.ids, List.map_filterMap]
  exact List.filterMap_congr fun id _ => h.get? id

theorem lineage (h : f.Translates φ g) (id : FactId) : g.lineage id = f.lineage id := by
  induction id using Nat.strong_induction_on with
  | _ id ih =>
    have hget := h.get? id
    cases hx : f.get? id with
    | none =>
      rw [hx] at hget
      rw [lineage_of_foreign hx, lineage_of_foreign hget]
    | some x =>
      rw [hx] at hget
      rw [lineage_eq hx, lineage_eq hget]
      change id :: x.parent.elim [] _ = _
      cases x.parent with
      | none => rfl
      | some p =>
        rw [Option.elim_some, Option.elim_some]
        by_cases hlt : p < id
        · rw [if_pos hlt, if_pos hlt, ih p hlt]
        · rw [if_neg hlt, if_neg hlt]

theorem nearest? (h : f.Translates φ g) (id : FactId) (tag : Tag) :
    g.nearest? id tag = f.nearest? id tag := by
  rw [FactForest.nearest?, FactForest.nearest?, h.lineage]
  exact List.find?_congr fun a _ => h.any_tag a tag

theorem bindInput (h : f.Translates φ g) (anchor : FactId) (input : Input) :
    g.bindInput anchor input = (f.bindInput anchor input).map φ := by
  have hfound : (g.nearest? anchor input.name).bind g.get? =
      ((f.nearest? anchor input.name).bind f.get?).map (Fact.map φ) := by
    rw [h.nearest?]
    cases f.nearest? anchor input.name with
    | none => rfl
    | some a => exact h.get? a
  have hor : ∀ x y : Option (Fact V),
      (x.map (Fact.map φ)).or (y.map (Fact.map φ)) = (x.or y).map (Fact.map φ) := by
    intro x y
    cases x <;> rfl
  rw [FactForest.bindInput, FactForest.bindInput, hfound, h.ofTag, List.head?_map, hor]
  split
  · rw [Option.map_map, Option.map_map]
    rfl
  · rw [Option.map_map, Option.map_map]
    rfl

theorem bound? (h : f.Translates φ g) (anchor : FactId) (input : Input) :
    g.bound? anchor input = (f.bound? anchor input).map fun x => (x.1, x.2.map φ) := by
  rw [FactForest.bound?, FactForest.bound?, h.bindInput]
  cases f.bindInput anchor input with
  | some v => rfl
  | none =>
    cases input.isOptional with
    | true => rfl
    | false => rfl

theorem bind? (h : f.Translates φ g) (inputs : List Input) (vars : Variables) (anchor : FactId) :
    g.bind? inputs vars anchor = (f.bind? inputs vars anchor).map (Binding.map φ) := by
  have hroot : g.root? = f.root?.map (Fact.map φ) := h.get? 0
  have hbound : inputs.mapM (g.bound? anchor) =
      (inputs.mapM (f.bound? anchor)).map (List.map fun x => (x.1, x.2.map φ)) := by
    induction inputs with
    | nil => rfl
    | cons input inputs ih =>
      rw [List.mapM_cons, List.mapM_cons, h.bound?, ih]
      cases f.bound? anchor input with
      | none => rfl
      | some x => cases inputs.mapM (f.bound? anchor) <;> rfl
  rw [FactForest.bind?, FactForest.bind?, hroot, hbound]
  cases f.root? with
  | none => rfl
  | some root => cases inputs.mapM (f.bound? anchor) <;> rfl

theorem insertAll (h : f.Translates φ g) (tag : Tag) (parent : FactId) (values : List V) :
    (f.insertAll tag parent values).Translates φ (g.insertAll tag parent (values.map φ)) := by
  apply Array.toList_inj.mp
  rw [Array.toList_map, toList_insertAll, toList_insertAll, h, Array.toList_map, List.map_append,
    List.map_map, List.map_map]
  rfl

end Translates

private theorem root_of_bind? {inputs : List Input} {vars : Variables} {root : Fact V}
    {b : Binding V}
    (hroot : f.root? = some root) (hb : f.bind? inputs vars id = some b) : b.root = root.value := by
  rw [bind?, hroot] at hb
  obtain ⟨x, hx, hb⟩ := Option.bind_eq_some_iff.mp hb
  obtain ⟨bound, -, hb⟩ := Option.bind_eq_some_iff.mp hb
  cases hx
  cases hb
  rfl

end FactForest

/-- Where the root value is `root`, the rule answers a translated binding with the translation of
its answer. -/
structure Rule.Respects (φ : V → V) (root : V) (r : Rule V E) : Prop where
  condition : ∀ b, b.root = root → r.condition (b.map φ) = r.condition b
  action : ∀ b, b.root = root → r.action (b.map φ) = (r.action b).map (Output.map φ)

namespace ScheduledRule

variable {r : ScheduledRule V E} {vars : Variables} {f g : FactForest V} {root : Fact V}

private theorem fireWith_map {b : Binding V} (hr : r.Respects φ root.value)
    (hb : b.root = root.value) :
    r.fireWith (b.map φ) = (r.fireWith b).map (List.map φ) := by
  have hvars : r.missingVariable? (b.map φ) = r.missingVariable? b := rfl
  rw [fireWith, fireWith, hvars, hr.condition b hb, hr.action b hb]
  cases r.missingVariable? b with
  | some name => rfl
  | none =>
    cases r.condition b with
    | false => rfl
    | true =>
      cases r.action b with
      | error e => rfl
      | ok o =>
        simp only [Except.map, bind, Except.bind, Output.values_map, List.length_map, if_true]
        split <;> rfl

private theorem fireAt_translates (hr : r.Respects φ root.value) (hroot : f.root? = some root)
    (h : f.Translates φ g) (anchor : FactId) :
    r.fireAt vars g anchor = (r.fireAt vars f anchor).map (List.map φ) := by
  rw [fireAt, fireAt, h.bind?]
  cases hb : f.bind? r.descriptor.inputs vars anchor with
  | none => rfl
  | some b => exact fireWith_map hr (FactForest.root_of_bind? hroot hb)

private theorem root?_insertAll (hroot : f.root? = some root) (tag : Tag) (parent : FactId)
    (values : List V) : (f.insertAll tag parent values).root? = some root := by
  have hlt : 0 < f.size := FactForest.lt_size_of_get? hroot
  exact ((FactForest.grows_of_insertAll f tag parent values).get? hlt).trans hroot

private theorem fireEach_translates (hr : r.Respects φ root.value) (anchors : List FactId)
    (hroot : f.root? = some root) (h : f.Translates φ g) :
    (r.fireEach vars anchors f).1.root? = some root ∧
      (r.fireEach vars anchors f).1.Translates φ (r.fireEach vars anchors g).1 ∧
      (r.fireEach vars anchors g).2 = (r.fireEach vars anchors f).2 := by
  induction anchors generalizing f g with
  | nil => exact ⟨hroot, h, rfl⟩
  | cons anchor rest ih =>
    rw [fireEach, fireEach, fireAt_translates hr hroot h]
    cases r.fireAt vars f anchor with
    | error e => exact ⟨hroot, h, rfl⟩
    | ok values => exact ih (root?_insertAll hroot _ anchor values) (h.insertAll _ anchor values)

end ScheduledRule

/-- Rules that respect a translation come to translated facts, or fail alike. -/
theorem fireAll_translates {rules : List (ScheduledRule V E)} {vars : Variables}
    {f g : FactForest V} {root : Fact V} (hr : ∀ r ∈ rules, r.Respects φ root.value)
    (hroot : f.root? = some root) (h : f.Translates φ g) :
    (fireAll vars rules f).1.Translates φ (fireAll vars rules g).1 ∧
      (fireAll vars rules g).2 = (fireAll vars rules f).2 := by
  induction rules generalizing f g with
  | nil => exact ⟨h, rfl⟩
  | cons r rules ih =>
    have hfire : ∀ anchors, (r.fireEach vars anchors f).1.root? = some root ∧
        (r.fireEach vars anchors f).1.Translates φ (r.fireEach vars anchors g).1 ∧
        (r.fireEach vars anchors g).2 = (r.fireEach vars anchors f).2 :=
      fun anchors => ScheduledRule.fireEach_translates (hr r List.mem_cons_self) anchors hroot h
    obtain ⟨hfirst, hfacts, hfailure⟩ := hfire (f.ids r.anchor)
    rw [fireAll, fireAll, ScheduledRule.fire, ScheduledRule.fire, h.ids]
    generalize r.fireEach vars (f.ids r.anchor) f = first at hfirst hfacts hfailure ⊢
    generalize r.fireEach vars (f.ids r.anchor) g = second at hfacts hfailure ⊢
    obtain ⟨f', failure⟩ := first
    obtain ⟨g', failure'⟩ := second
    change failure' = failure at hfailure
    subst hfailure
    cases failure' with
    | none => exact ih (fun r hmem => hr r (List.mem_cons_of_mem _ hmem)) hfirst hfacts
    | some e => exact ⟨hfacts, rfl⟩

end SlowRequest
